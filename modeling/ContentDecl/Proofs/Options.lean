/-
# What options are read from

A setting is found under its name, or else under its other spelling; what stands under the
name goes first even if it is null. `Settings` says what options an object gives by the
values that are found so, and reading gives these options or, if the field options are
something else than an object or null, nothing (`ofJson_eq_ok_iff`).

All else follows from this. Written options have each setting under its name, so they are
read as what was written; objects with the same values under the keys that are read are
read alike; and where one spelling takes the place of the other, at either level, the
values that are found are the same, for one change (`Respelling.agree`) and hence
for any number of them.

Key definitions: `effective`, `TypeFieldIn`, `Settings`, `Agree`, `SameSettings`, `Swap`,
`Respelling`.
Key theorems: `ofJson_eq_ok_iff`, `ofJson_toJson`, `Agree.ofJson_eq`, `Swap.effective_eq`,
`Respelling.agree`, `options_roundTrip`.
-/
import ContentDecl.Dump.Lemmas
import ContentDecl.Options
import ContentDecl.Proofs.Result
import Mathlib.Logic.Relation

namespace ContentDecl

/-- A value is read as one of the known adapters exactly if it is its name. -/
theorem Adapter.ofValue_eq_iff (v : Json) (adapter : Adapter) : Adapter.ofValue v = adapter ↔
    v = .str adapter.name ∨ (adapter = .unknown ∧ ∀ known : Adapter, v ≠ .str known.name) := by
  cases v with
  | str s =>
    cases hfound : ofName? s with
    | none =>
      have hno : ∀ known : Adapter, s ≠ known.name := by
        rintro known rfl
        rw [ofName?_name] at hfound
        cases hfound
      simp [ofValue, hfound, hno, eq_comm]
    | some found =>
      obtain rfl : found.name = s := by simpa using List.find?_some hfound
      have hname : ∀ known : Adapter, found.name = known.name ↔ found = known := by
        intro known
        cases found <;> cases known <;> decide
      have hsome : ∃ known, found = known := ⟨found, rfl⟩
      simp [ofValue, hfound, hname]
  | _ => simp [ofValue, eq_comm]

namespace Options

open Result

variable {members others inner inner' before after : List (String × Json)}
  {name other key : String}

/-! ### What options an object gives -/

/-- The value of a setting: that under its name, or else that under its other spelling. -/
def effective (members : List (String × Json)) (name other : String) : Option Json :=
  (members.lookup name).or (members.lookup other)

/-- The name of the type field by the value of the field options: without field options
it is `type`, and so it is if these do not say it. -/
inductive TypeFieldIn : Option Json → Json → Prop
  | absent : TypeFieldIn none (.str "type")
  | null : TypeFieldIn (some .null) (.str "type")
  | given (inner : List (String × Json)) : TypeFieldIn (some (.obj inner))
      ((effective inner "type_field_name" "typeFieldName").getD (.str "type"))

/-- The members of an object give these options. -/
structure Settings (members : List (String × Json)) (options : Options) : Prop where
  adapter : options.adapter
    = (effective members "source_plugin_type" "sourcePluginType").elim .unknown Adapter.ofValue
  typeField : TypeFieldIn (effective members "field_options" "fieldOptions") options.typeFieldName
  banner : options.banner
    = .bool ((members.lookup "add_generation_comment").elim true Json.isTrue)

theorem firstMember_eq (members : List (String × Json)) (name other : String) (absent : Json) :
    firstMember members name other absent = (effective members name other).getD absent := by
  unfold firstMember effective
  cases members.lookup name <;> rfl

theorem fieldOptions_obj (inner : List (String × Json)) : FieldOptions.ofJson (.obj inner)
    = .ok ⟨(effective inner "type_field_name" "typeFieldName").getD (.str "type")⟩ := by
  rw [FieldOptions.ofJson, firstMember_eq]

/-- The field options that are found. -/
def fieldOptionsOf : Option Json → Except Fault FieldOptions
  | none => .ok {}
  | some .null => .ok {}
  | some value => FieldOptions.ofJson value

theorem fieldOptionsOf_eq_ok_iff {found : Option Json} {fieldOptions : FieldOptions} :
    fieldOptionsOf found = .ok fieldOptions ↔ TypeFieldIn found fieldOptions.typeFieldName := by
  obtain ⟨typeField⟩ := fieldOptions
  constructor
  · intro h
    rcases found with _ | value
    · obtain rfl := congrArg FieldOptions.typeFieldName (Except.ok.inj h)
      exact .absent
    · cases value with
      | null =>
        obtain rfl := congrArg FieldOptions.typeFieldName (Except.ok.inj h)
        exact .null
      | obj inner =>
        have htype := Except.ok.inj ((fieldOptions_obj inner).symm.trans h)
        obtain rfl := congrArg FieldOptions.typeFieldName htype
        exact .given inner
      | _ => cases h
  · rintro (_ | _ | inner)
    · rfl
    · rfl
    · exact fieldOptions_obj inner

/-- Reading goes by what is found of each setting. -/
theorem ofJson_obj (members : List (String × Json)) : ofJson (.obj members) =
    (fun fieldOptions => {
        adapter := (effective members "source_plugin_type" "sourcePluginType").elim .unknown
          Adapter.ofValue
        fieldOptions
        banner := .bool ((members.lookup "add_generation_comment").elim true Json.isTrue) })
      <$> fieldOptionsOf (effective members "field_options" "fieldOptions") := by
  simp only [ofJson, firstMember_eq]
  generalize effective members "source_plugin_type" "sourcePluginType" = source
  generalize effective members "field_options" "fieldOptions" = fields
  generalize members.lookup "add_generation_comment" = banner
  rcases banner with _ | banner <;> rcases source with _ | source <;>
    rcases fields with _ | fields <;> (try cases source) <;> (try cases fields) <;> rfl

/-- **An object is read as the options that its members give**, and as nothing if they
give none. -/
theorem ofJson_eq_ok_iff {options : Options} :
    ofJson (.obj members) = .ok options ↔ Settings members options := by
  rw [ofJson_obj, map_eq_ok]
  constructor
  · rintro ⟨fieldOptions, hfields, rfl⟩
    exact ⟨rfl, fieldOptionsOf_eq_ok_iff.mp hfields, rfl⟩
  · intro h
    obtain ⟨adapter, fieldOptions, banner⟩ := options
    obtain ⟨rfl, hfields, rfl⟩ := h
    exact ⟨fieldOptions, fieldOptionsOf_eq_ok_iff.mpr hfields, rfl⟩

/-- Reading fails in one way only. -/
theorem eq_missingAttribute_of_ofJson {d : Json} {fault : Fault} (h : ofJson d = .error fault) :
    fault = .missingAttribute := by
  cases d with
  | obj members =>
    rw [ofJson_obj, map_eq_error] at h
    unfold fieldOptionsOf FieldOptions.ofJson at h
    split at h
    · cases h
    · cases h
    · split at h
      · cases h
      · exact (Except.error.inj h).symm
  | _ => exact (Except.error.inj h).symm

/-- Objects that give the same options are read alike. -/
theorem ofJson_ext (h : ∀ options, Settings members options ↔ Settings others options) :
    ofJson (.obj members) = ofJson (.obj others) := by
  cases hmembers : ofJson (.obj members) with
  | ok options => exact (ofJson_eq_ok_iff.mpr ((h options).mp (ofJson_eq_ok_iff.mp hmembers))).symm
  | error fault =>
    cases hothers : ofJson (.obj others) with
    | ok options =>
      have hread := ofJson_eq_ok_iff.mpr ((h options).mpr (ofJson_eq_ok_iff.mp hothers))
      rw [hmembers] at hread
      cases hread
    | error other =>
      rw [eq_missingAttribute_of_ofJson hmembers, eq_missingAttribute_of_ofJson hothers]

/-! ### Written options -/

/-- **Written options are read as what was written**, if the banner setting is a truth
value. -/
theorem ofJson_toJson (adapter : Adapter) (typeField : Json) (banner : Bool) :
    ofJson (toJson ⟨adapter, ⟨typeField⟩, .bool banner⟩)
      = .ok ⟨adapter, ⟨typeField⟩, .bool banner⟩ := by
  have hadapter : Adapter.ofValue (.str adapter.name) = adapter :=
    (Adapter.ofValue_eq_iff _ _).mpr (.inl rfl)
  rw [toJson, ofJson_eq_ok_iff]
  exact ⟨hadapter.symm, .given [("type_field_name", typeField)], rfl⟩

/-- Options that were read have a truth value for a banner setting, so written and read
again they are the same. -/
theorem ofJson_toJson_of_ofJson {d : Json} {options : Options} (h : ofJson d = .ok options) :
    ofJson options.toJson = .ok options := by
  cases d with
  | obj members =>
    have hbanner := (ofJson_eq_ok_iff.mp h).banner
    obtain ⟨adapter, ⟨typeField⟩, banner⟩ := options
    obtain rfl := hbanner
    exact ofJson_toJson adapter typeField _
  | _ => cases h

/-! ### What the options depend on -/

/-- Field options that are an object say of the type field what is found in them. -/
theorem typeFieldIn_obj_iff {typeField : Json} : TypeFieldIn (some (.obj inner)) typeField ↔
    typeField = (effective inner "type_field_name" "typeFieldName").getD (.str "type") := by
  constructor
  · rintro ⟨⟩
    rfl
  · rintro rfl
    exact .given inner

/-- Of each setting the same is found, or in the case of the field options something that
says the same of the type field. -/
structure Agree (members others : List (String × Json)) : Prop where
  adapter : effective members "source_plugin_type" "sourcePluginType"
    = effective others "source_plugin_type" "sourcePluginType"
  typeField : ∀ typeField, TypeFieldIn (effective members "field_options" "fieldOptions") typeField
    ↔ TypeFieldIn (effective others "field_options" "fieldOptions") typeField
  banner : members.lookup "add_generation_comment" = others.lookup "add_generation_comment"

/-- **Objects that agree on every setting are read alike.** -/
theorem Agree.ofJson_eq (h : Agree members others) :
    ofJson (.obj members) = ofJson (.obj others) := by
  refine ofJson_ext fun options => ⟨fun hsettings => ?_, fun hsettings => ?_⟩
  · exact ⟨by rw [hsettings.adapter, h.adapter], (h.typeField _).mp hsettings.typeField,
      by rw [hsettings.banner, h.banner]⟩
  · exact ⟨by rw [hsettings.adapter, h.adapter], (h.typeField _).mpr hsettings.typeField,
      by rw [hsettings.banner, h.banner]⟩

theorem effective_congr (hname : members.lookup name = others.lookup name)
    (hother : members.lookup other = others.lookup other) :
    effective members name other = effective others name other := by
  rw [effective, effective, hname, hother]

/-- The keys of settings that are read as they are. -/
def plainKeys : List String := ["source_plugin_type", "sourcePluginType", "add_generation_comment"]

/-- The keys under which field options may stand. -/
def fieldOptionsKeys : List String := ["field_options", "fieldOptions"]

/-- The keys of field options. -/
def typeFieldKeys : List String := ["type_field_name", "typeFieldName"]

theorem not_mem_fieldOptionsKeys : ∀ key ∈ plainKeys, key ∉ fieldOptionsKeys := by decide

/-- Under a key stands the same, or field options in which the same is found. -/
def AlikeAt (members others : List (String × Json)) (key : String) : Prop :=
  members.lookup key = others.lookup key ∨
    ∃ inner inner', members.lookup key = some (.obj inner) ∧
      others.lookup key = some (.obj inner') ∧
      effective inner "type_field_name" "typeFieldName"
        = effective inner' "type_field_name" "typeFieldName"

/-- If field options are alike under each of their keys, so are those that are found. -/
theorem typeFieldIn_congr (h : ∀ key ∈ fieldOptionsKeys, AlikeAt members others key)
    (typeField : Json) : TypeFieldIn (effective members "field_options" "fieldOptions") typeField
      ↔ TypeFieldIn (effective others "field_options" "fieldOptions") typeField := by
  have hname := h "field_options" (by decide)
  have hother := h "fieldOptions" (by decide)
  unfold effective
  rcases hname with heq | ⟨inner, inner', hinner, hinner', hsame⟩
  · rw [heq]
    cases others.lookup "field_options" with
    | some v => rfl
    | none =>
      rcases hother with heq | ⟨inner, inner', hinner, hinner', hsame⟩
      · rw [heq]
      · rw [hinner, hinner', Option.none_or, Option.none_or, typeFieldIn_obj_iff,
          typeFieldIn_obj_iff, hsame]
  · rw [hinner, hinner', Option.some_or, Option.some_or, typeFieldIn_obj_iff,
      typeFieldIn_obj_iff, hsame]

/-- The same values stand under the keys that are read, but for the field options, where
they stand under the keys that are read of these. -/
structure SameSettings (members others : List (String × Json)) : Prop where
  plain : ∀ key ∈ plainKeys, members.lookup key = others.lookup key
  fieldOptions : ∀ key ∈ fieldOptionsKeys, members.lookup key = others.lookup key ∨
    ∃ inner inner', members.lookup key = some (.obj inner) ∧
      others.lookup key = some (.obj inner') ∧
      ∀ key ∈ typeFieldKeys, inner.lookup key = inner'.lookup key

theorem SameSettings.agree (h : SameSettings members others) : Agree members others where
  adapter := effective_congr (h.plain _ (by decide)) (h.plain _ (by decide))
  typeField := by
    refine typeFieldIn_congr fun key hkey => ?_
    rcases h.fieldOptions key hkey with heq | ⟨inner, inner', hinner, hinner', hsame⟩
    · exact .inl heq
    · exact .inr ⟨inner, inner', hinner, hinner',
        effective_congr (hsame _ (by decide)) (hsame _ (by decide))⟩
  banner := h.plain _ (by decide)

/-! ### One spelling for the other -/

/-- One spelling takes the place of the other: a member gets the other spelling, which no
member has; or the one with the other spelling is put in, taken out or changed, while
there is one with the name, whatever its value. -/
inductive Swap (name other : String) (members others : List (String × Json)) : Prop
  | renamed (habsent : members.lookup other = none) (hgone : others.lookup name = none)
    (hmoved : others.lookup other = members.lookup name)
    (hrest : ∀ key, key ≠ name → key ≠ other → members.lookup key = others.lookup key)
  | shadowed {v : Json} (hpresent : members.lookup name = some v)
    (hrest : ∀ key, key ≠ other → members.lookup key = others.lookup key)

/-- What is found is the same under either spelling. -/
theorem Swap.effective_eq (h : Swap name other members others) (hne : name ≠ other) :
    effective members name other = effective others name other := by
  cases h with
  | renamed habsent hgone hmoved =>
    rw [effective, effective, habsent, hgone, hmoved]
    exact Option.or_none
  | shadowed hpresent hrest =>
    have hpresent' := (hrest name hne).symm.trans hpresent
    rw [effective, effective, hpresent, hpresent']
    rfl

theorem Swap.lookup_eq (h : Swap name other members others) (hname : key ≠ name)
    (hother : key ≠ other) : members.lookup key = others.lookup key := by
  cases h with
  | renamed _ _ _ hrest => exact hrest key hname hother
  | shadowed _ hrest => exact hrest key hother

/-- One change of spelling, of a setting or inside of the field options. -/
inductive Respelling (members others : List (String × Json)) : Prop
  | adapter (h : Swap "source_plugin_type" "sourcePluginType" members others)
  | fieldOptions (h : Swap "field_options" "fieldOptions" members others)
  | typeField {key : String} {inner inner' : List (String × Json)} (hkey : key ∈ fieldOptionsKeys)
    (hmembers : members.lookup key = some (.obj inner))
    (hothers : others.lookup key = some (.obj inner'))
    (hrest : ∀ other, other ≠ key → members.lookup other = others.lookup other)
    (h : Swap "type_field_name" "typeFieldName" inner inner')

/-- One change of spelling leaves what is found of each setting. -/
theorem Respelling.agree (h : Respelling members others) : Agree members others := by
  cases h with
  | adapter h =>
    have hkeys : ∀ key ∈ fieldOptionsKeys, AlikeAt members others key := by
      intro key hkey
      refine .inl (h.lookup_eq ?_ ?_) <;> rintro rfl <;> exact absurd hkey (by decide)
    exact ⟨h.effective_eq (by decide), typeFieldIn_congr hkeys,
      h.lookup_eq (by decide) (by decide)⟩
  | fieldOptions h =>
    have hplain : ∀ key ∈ plainKeys, members.lookup key = others.lookup key := by
      intro key hkey
      refine h.lookup_eq ?_ ?_ <;> rintro rfl <;> exact absurd hkey (by decide)
    refine ⟨effective_congr (hplain _ (by decide)) (hplain _ (by decide)), fun typeField => ?_,
      hplain _ (by decide)⟩
    rw [h.effective_eq (by decide)]
  | @typeField place inner inner' hkey hmembers hothers hrest h =>
    have hplain : ∀ key ∈ plainKeys, members.lookup key = others.lookup key := by
      intro key hmem
      refine hrest key ?_
      rintro rfl
      exact not_mem_fieldOptionsKeys key hmem hkey
    refine ⟨effective_congr (hplain _ (by decide)) (hplain _ (by decide)),
      typeFieldIn_congr fun key _ => ?_, hplain _ (by decide)⟩
    by_cases heq : key = place
    · subst heq
      exact .inr ⟨inner, inner', hmembers, hothers, h.effective_eq (by decide)⟩
    · exact .inl (hrest key heq)

/-- Any number of changes of spelling leave the options. -/
theorem ofJson_of_respellings (h : Relation.ReflTransGen Respelling members others) :
    ofJson (.obj members) = ofJson (.obj others) := by
  induction h with
  | refl => rfl
  | tail _ hstep ih => rw [ih, hstep.agree.ofJson_eq]

/-- No value of an adapter stops the reading, or changes anything but the adapter. -/
theorem ofJson_cons_adapter {options : Options} (v : Json)
    (h : ofJson (.obj members) = .ok options) :
    ofJson (.obj (("source_plugin_type", v) :: members))
      = .ok { options with adapter := Adapter.ofValue v } := by
  have hsettings := ofJson_eq_ok_iff.mp h
  have hrest : ∀ key, key ≠ "source_plugin_type" →
      (("source_plugin_type", v) :: members).lookup key = members.lookup key := fun key hkey =>
    Dump.lookup_cons_ne v members hkey.symm
  refine ofJson_eq_ok_iff.mpr ⟨?_, ?_, ?_⟩
  · rw [effective, List.lookup_cons_self]
    rfl
  · have heffective := effective_congr (hrest "field_options" (by decide))
      (hrest "fieldOptions" (by decide))
    rw [heffective]
    exact hsettings.typeField
  · rw [hrest _ (by decide)]
    exact hsettings.banner

/-- **Options survive a round trip and have one normal form.** Written options are read
back; and options that were read are written and read as themselves, so that what they are
written as is a normal form. An object is read as the options that its members give, which
depend on what stands under the keys that are read. Changes of spelling at either level
leave them. And any value can stand for an adapter: it is the one of which it is the name,
or else the unknown one, and it changes nothing else. -/
theorem options_roundTrip :
    (∀ adapter typeField banner, ofJson (toJson ⟨adapter, ⟨typeField⟩, .bool banner⟩)
      = .ok ⟨adapter, ⟨typeField⟩, .bool banner⟩) ∧
    (∀ d options, ofJson d = .ok options →
      ofJson options.toJson = .ok options ∧ toJson <$> ofJson options.toJson = .ok options.toJson) ∧
    (∀ members options, ofJson (.obj members) = .ok options ↔ Settings members options) ∧
    (∀ members others, SameSettings members others →
      ofJson (.obj members) = ofJson (.obj others)) ∧
    (∀ members others, Relation.ReflTransGen Respelling members others →
      ofJson (.obj members) = ofJson (.obj others)) ∧
    (∀ v adapter, Adapter.ofValue v = adapter ↔
      v = .str adapter.name ∨ (adapter = .unknown ∧ ∀ known : Adapter, v ≠ .str known.name)) ∧
    ∀ members options v, ofJson (.obj members) = .ok options →
      ofJson (.obj (("source_plugin_type", v) :: members))
        = .ok { options with adapter := Adapter.ofValue v } := by
  refine ⟨ofJson_toJson, fun d options h => ?_, fun _ _ => ofJson_eq_ok_iff,
    fun _ _ h => h.agree.ofJson_eq, fun _ _ => ofJson_of_respellings, Adapter.ofValue_eq_iff,
    fun _ _ v => ofJson_cons_adapter v⟩
  have hagain := ofJson_toJson_of_ofJson h
  exact ⟨hagain, by rw [hagain, map_ok]⟩

/-- Settings under the names with underscores, with a null for the adapter, which goes
before the adapter that is named under the other spelling. -/
def kindSettings : List (String × Json) :=
  [("field_options", .obj [("type_field_name", .str "kind")]), ("source_plugin_type", .null),
    ("sourcePluginType", .str "local"), ("add_generation_comment", .int 0)]

/-- The same settings under the other spellings at both levels. -/
def kindRespelled : List (String × Json) :=
  [("fieldOptions", .obj [("typeFieldName", .str "kind")]), ("source_plugin_type", .null),
    ("sourcePluginType", .str "local"), ("add_generation_comment", .int 0)]

def kindOptions : Options :=
  { adapter := .unknown, fieldOptions := ⟨.str "kind"⟩, banner := .bool false }

theorem kindSettings_respelled : Relation.ReflTransGen Respelling kindSettings kindRespelled := by
  have hinner : Swap "type_field_name" "typeFieldName" [("type_field_name", .str "kind")]
      [("typeFieldName", .str "kind")] := by
    refine .renamed rfl rfl rfl fun key hname hother => ?_
    rw [Dump.lookup_cons_ne _ _ hname.symm, Dump.lookup_cons_ne _ _ hother.symm]
  have hfirst : Respelling kindSettings
      (("field_options", .obj [("typeFieldName", .str "kind")]) :: kindSettings.tail) := by
    refine .typeField List.mem_cons_self rfl rfl (fun key hkey => ?_) hinner
    exact (Dump.lookup_cons_ne _ _ hkey.symm).trans (Dump.lookup_cons_ne _ _ hkey.symm).symm
  refine .tail (.single hfirst) (.fieldOptions (.renamed rfl rfl rfl fun key hname hother => ?_))
  exact (Dump.lookup_cons_ne _ _ hname.symm).trans (Dump.lookup_cons_ne _ _ hother.symm).symm

theorem kindSettings_read :
    ofJson (.obj kindSettings) = .ok kindOptions ∧
    ofJson kindOptions.toJson = .ok kindOptions ∧
    ofJson (.obj kindRespelled) = .ok kindOptions ∧
    ofJson (.obj (("comment", .null) :: kindSettings)) = .ok kindOptions ∧
    ofJson (.obj (("source_plugin_type", .arr [.str "local"]) :: kindSettings))
      = .ok kindOptions := by
  obtain ⟨-, hagain, -, hsame, hrespelled, -, hadapter⟩ := options_roundTrip
  have hread : ofJson (.obj kindSettings) = .ok kindOptions := by
    with_unfolding_all rfl
  have hcomment : SameSettings (("comment", .null) :: kindSettings) kindSettings := by
    have hkeys : ∀ key ∈ plainKeys ++ fieldOptionsKeys, "comment" ≠ key := by decide
    refine ⟨fun key hkey => ?_, fun key hkey => .inl ?_⟩
    · exact Dump.lookup_cons_ne _ _ (hkeys key (List.mem_append_left _ hkey))
    · exact Dump.lookup_cons_ne _ _ (hkeys key (List.mem_append_right _ hkey))
  refine ⟨hread, (hagain _ _ hread).1, ?_, ?_, hadapter _ _ _ hread⟩
  · rw [← hrespelled _ _ kindSettings_respelled, hread]
  · rw [hsame _ _ hcomment, hread]

end Options
end ContentDecl
