import ContentDecl.Main
import ContentDecl.Session
import ContentDecl.Proofs.TypeExpr.Spelling
import ContentDecl.Proofs.Dump.FirstDefect
import ContentDecl.Proofs.Rendering.Parsed
import ContentDecl.Proofs.Dump.Writer
import ContentDecl.Proofs.Dump.RoundTrip
import ContentDecl.Proofs.Dump.Keys
import ContentDecl.Proofs.Dump.Names
import ContentDecl.Proofs.Rendering.NameOrder
import ContentDecl.Proofs.Rendering.Visits
import ContentDecl.Proofs.Rendering.FirstFault
import ContentDecl.Proofs.Rendering.Listings
import ContentDecl.Proofs.Rendering.AdapterPlaces
import ContentDecl.Proofs.Rendering.DefinitionOrder
import ContentDecl.Proofs.Files.Operation
import ContentDecl.Proofs.Files.Tree
import ContentDecl.Proofs.Files.Directories
import ContentDecl.Proofs.Files.Draft
import ContentDecl.Proofs.Files.Writing
import ContentDecl.Proofs.Files.Links
import ContentDecl.Proofs.Files.Interleaving
import ContentDecl.Proofs.Command.Invocation
import ContentDecl.Proofs.Command.AllOrNothing
import ContentDecl.Proofs.Rendering.DeclarationLayout
import ContentDecl.Proofs.Rendering.Reported
import ContentDecl.Proofs.Rendering.Scanner
import ContentDecl.Proofs.Rendering.Containment
import ContentDecl.Proofs.Rendering.TypeLiteral
import ContentDecl.Proofs.Rendering.MemberNames
import ContentDecl.Proofs.Rendering.EmptyUnions
import ContentDecl.Proofs.Dump.Edits
import ContentDecl.Proofs.Rendering.LiteralUnions
import ContentDecl.Proofs.Rendering.Extensions
import ContentDecl.Proofs.Options
import ContentDecl.Proofs.Json.Reading
import ContentDecl.Proofs.Dump.Loading
