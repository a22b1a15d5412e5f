/-
# Arguments of the command

The command takes options and arguments in any order. An option has a long
name after two dashes and may have a letter after one. The value of a long
option follows an equals sign or is the next argument; the value of a letter is
the rest of its argument or the next one, and letters without a value may share
an argument. Two dashes alone end the options. Of a repeated option the last
value counts. A long name that is no option's is refused with an offer of those
it is like.

`split` only sorts the arguments; what the values are allowed to be is decided
later.

Key definitions: `Command.Flag`, `Command.Flag.namesLike`, `Command.Refusal`,
`Command.Arguments`, `Command.split`.
-/
import ContentDecl.Adapter
import ContentDecl.Text.Similar

namespace ContentDecl
namespace Command

/-- The options of the command. -/
inductive Flag where
  | config
  | sourcePlugin
  | typeFieldName
  | noGenerationComment
  | verbose
  | help
  deriving DecidableEq, Repr

namespace Flag

def all : List Flag := [config, sourcePlugin, typeFieldName, noGenerationComment, verbose, help]

def longName : Flag → String
  | config => "--config"
  | sourcePlugin => "--source-plugin"
  | typeFieldName => "--type-field-name"
  | noGenerationComment => "--no-generation-comment"
  | verbose => "--verbose"
  | help => "--help"

def letter? : Flag → Option Char
  | config => some 'c'
  | sourcePlugin => some 's'
  | verbose => some 'v'
  | _ => none

def takesValue : Flag → Bool
  | config => true
  | sourcePlugin => true
  | typeFieldName => true
  | _ => false

def ofLongName? (name : String) : Option Flag := all.find? fun flag => flag.longName == name

def ofLetter? (letter : Char) : Option Flag := all.find? fun flag => flag.letter? == some letter

/-- How many long names are offered in place of one that is no option's. -/
def maxOffers : Nat := 3

/-- The long names that may have been meant by a name, in ascending order. -/
def namesLike (name : String) : List String :=
  (Text.mostLike maxOffers name (all.map longName)).mergeSort fun s t => !decide (t < s)

end Flag

/-- The arguments that are no options. -/
inductive Operand where
  | path
  | output
  deriving DecidableEq, Repr

def Operand.title : Operand → String
  | path => "[PATH]"
  | output => "[OUTPUT]"

/-- Why a command line is not accepted. -/
inductive Refusal where
  /-- With the names of options that may have been meant. -/
  | noSuchOption (spelling : String) (offers : List String)
  | valueNeeded (spelling : String)
  | valueNotTaken (spelling : String)
  | noSuchAdapter (value : String)
  | noSuchConfig (value : String)
  | noSuchPath (value : String)
  | extraArguments (first : String) (more : List String)
  deriving DecidableEq, Repr

namespace Refusal

def adapterNames : String :=
  String.intercalate ", " (Adapter.all.map fun adapter => Text.quoted adapter.name)

/-- Asks whether one of some names was meant. -/
def offerText : List String → String
  | [] => ""
  | [name] => " Did you mean " ++ Text.quoted name ++ "?"
  | names =>
    " (Did you mean one of: " ++ String.intercalate ", " (names.map Text.quoted) ++ "?)"

def message : Refusal → String
  | noSuchOption spelling offers =>
    "No such option " ++ Text.quoted spelling ++ "." ++ offerText offers
  | valueNeeded spelling => "Option " ++ Text.quoted spelling ++ " requires an argument."
  | valueNotTaken spelling => "Option " ++ Text.quoted spelling ++ " does not take a value."
  | noSuchAdapter value =>
    "Invalid value for '--source-plugin' / '-s': " ++ Text.quoted value ++ " is not one of "
      ++ adapterNames ++ "."
  | noSuchConfig value =>
    "Invalid value for '--config' / '-c': Path " ++ Text.quoted value ++ " does not exist."
  | noSuchPath value =>
    "Invalid value for '" ++ Operand.path.title ++ "': Path " ++ Text.quoted value
      ++ " does not exist."
  | extraArguments first [] => "Got unexpected extra argument (" ++ first ++ ")"
  | extraArguments first more =>
    "Got unexpected extra arguments (" ++ String.intercalate " " (first :: more) ++ ")"

/-- Whether the usage is shown with the message. A value that is missing or too
much is reported while the arguments are still being sorted, without it. -/
def showsUsage : Refusal → Bool
  | valueNeeded _ => false
  | valueNotTaken _ => false
  | _ => true

end Refusal

/-- The sorted arguments: each option with its value, in the order given, and
the other arguments. -/
structure Arguments where
  settings : List (Flag × String) := []
  operands : List String := []
  deriving DecidableEq, Repr, Inhabited

namespace Arguments

def addSetting (arguments : Arguments) (flag : Flag) (value : String) : Arguments :=
  { arguments with settings := arguments.settings ++ [(flag, value)] }

def addOperands (arguments : Arguments) (operands : List String) : Arguments :=
  { arguments with operands := arguments.operands ++ operands }

/-- The last value of an option. -/
def value? (arguments : Arguments) (flag : Flag) : Option String :=
  arguments.settings.reverse.lookup flag

def has (arguments : Arguments) (flag : Flag) : Bool := (arguments.value? flag).isSome

/-- The options given, in order of first appearance. -/
def flags (arguments : Arguments) : List Flag :=
  (arguments.settings.map (·.1)).eraseDups

end Arguments

/-- What one argument gives: the options in it, and possibly one more whose
value is the next argument. -/
structure Reading where
  settings : List (Flag × String) := []
  open? : Option (Flag × String) := none

/-- The options that letters stand for. -/
def readLetters : List Char → Except Refusal Reading
  | [] => .ok {}
  | c :: rest =>
    let spelling := String.ofList ['-', c]
    match Flag.ofLetter? c with
    | none => .error (.noSuchOption spelling [])
    | some flag =>
      if flag.takesValue then
        if rest.isEmpty then .ok { open? := some (flag, spelling) }
        else .ok { settings := [(flag, String.ofList rest)] }
      else do
        let reading ← readLetters rest
        return { reading with settings := (flag, "") :: reading.settings }

/-- A text up to its first equals sign, and what follows the sign. -/
def splitEquals (s : String) : String × Option String :=
  let name := s.toList.takeWhile (· != '=')
  match s.toList.drop name.length with
  | [] => (s, none)
  | _ :: value => (String.ofList name, some (String.ofList value))

/-- The options that an argument with a leading dash stands for. -/
def readOption (argument : String) : Except Refusal Reading :=
  let (name, value?) := splitEquals argument
  match Flag.ofLongName? name with
  | some flag =>
    match flag.takesValue, value? with
    | true, some value => .ok { settings := [(flag, value)] }
    | true, none => .ok { open? := some (flag, name) }
    | false, some _ => .error (.valueNotTaken name)
    | false, none => .ok { settings := [(flag, "")] }
  | none =>
    if argument.toList.take 2 == ['-', '-'] then .error (.noSuchOption name (Flag.namesLike name))
    else readLetters (argument.toList.drop 1)

/-- Whether an argument is read as options. -/
def looksLikeOption (argument : String) : Bool :=
  argument.toList.head? == some '-' && argument != "-"

/-- Sorts the arguments, added to those sorted so far. -/
def split (found : Arguments) : List String → Except Refusal Arguments
  | [] => .ok found
  | argument :: rest =>
    if argument == "--" then .ok (found.addOperands rest)
    else if looksLikeOption argument then
      match readOption argument with
      | .error refusal => .error refusal
      | .ok reading =>
        let found := reading.settings.foldl
          (fun found setting => found.addSetting setting.1 setting.2) found
        match reading.open?, rest with
        | none, rest => split found rest
        | some (flag, _), value :: rest => split (found.addSetting flag value) rest
        | some (_, spelling), [] => .error (.valueNeeded spelling)
    else split (found.addOperands [argument]) rest

end Command
end ContentDecl
