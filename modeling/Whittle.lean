import Whittle.Main
import Whittle.Session
import Whittle.Proofs.Identifiers.Exchange
import Whittle.Proofs.Identifiers.Edits
import Whittle.Proofs.Identifiers.History
import Whittle.Proofs.Reduction.ValueEdits
import Whittle.Proofs.Number.Literals
import Whittle.Proofs.RoundTrip.Expr
import Whittle.Proofs.Reduction.Parts
import Whittle.Proofs.Syntax.Slot
import Whittle.Proofs.Typing.Hosting
import Whittle.Proofs.Typing.Slots
import Whittle.Proofs.Scoping.References
import Whittle.Proofs.Reduction.Places
import Whittle.Proofs.Reduction.Unwrapping
import Whittle.Proofs.Reduction.SwitchArms
import Whittle.Proofs.Reduction.SwitchRuns
import Whittle.Proofs.Scoping.Copies
import Whittle.Proofs.Reduction.Unswitching
import Whittle.Proofs.Number.Rounding
import Whittle.Proofs.Number.Shortest
import Whittle.Proofs.RoundTrip.Layout
import Whittle.Proofs.RoundTrip.Texts
import Whittle.Proofs.Syntax.Renumbering
import Whittle.Proofs.RoundTrip.Printable
import Whittle.Proofs.RoundTrip.Words
import Whittle.Proofs.RoundTrip.Begins
import Whittle.Proofs.RoundTrip.Parts
import Whittle.Proofs.RoundTrip.Stmt
import Whittle.Proofs.RoundTrip.Decl
import Whittle.Proofs.RoundTrip.Shader
import Whittle.Proofs.Scoping.Lexical
import Whittle.Proofs.Typing.Calls
import Whittle.Proofs.Syntax.Mapping
import Whittle.Proofs.Reduction.FieldFlattening
import Whittle.Proofs.Reduction.FieldRemoval
import Whittle.Proofs.Reduction.InitInlining
import Whittle.Proofs.Reduction.OutlinedCall
import Whittle.Proofs.Reduction.SoleField
import Whittle.Proofs.Reduction.ShaderNames
import Whittle.Proofs.Typing.Splitting
import Whittle.Proofs.Reduction.BuiltVectors
import Whittle.Proofs.Reduction.VectorSplit
import Whittle.Proofs.Reduction.Bodies
import Whittle.Proofs.Reduction.BodyPromotion
import Whittle.Proofs.Typing.Persistence
import Whittle.Proofs.Typing.Lacking
import Whittle.Proofs.Typing.Dropping
import Whittle.Proofs.Reduction.Deletions
import Whittle.Proofs.Typing.Trimming
import Whittle.Proofs.Reduction.CallArguments
import Whittle.Proofs.Reduction.UnusedParams
import Whittle.Proofs.Parse.Yields
import Whittle.Proofs.RoundTrip.Shapes
import Whittle.Proofs.Parse.Statements
import Whittle.Proofs.RoundTrip.Stripped
import Whittle.Proofs.RoundTrip.Checked
import Whittle.Proofs.Reduction.CountedLoops
import Whittle.Proofs.Reduction.LoopMerging
import Whittle.Proofs.Discovery.TargetedSearch
import Whittle.Proofs.Discovery.NamedVersion
import Whittle.Proofs.Identifiers.StaleEdits
import Whittle.Proofs.Reduction.ColourWrites
import Whittle.Proofs.Discovery.Verification
import Whittle.Proofs.Typing.Features
import Whittle.Proofs.Identifiers.MapIds
import Whittle.Proofs.Typing.Equivariance
import Whittle.Proofs.Typing.Copies
import Whittle.Proofs.Meaning.Identities
import Whittle.Proofs.Reduction.ConstantProgress
import Whittle.Proofs.Parse.Concatenation
import Whittle.Proofs.Tokens.Shaders
import Whittle.Proofs.Identifiers.SourceOrder
import Whittle.Proofs.Identifiers.Targets
import Whittle.Proofs.Parse.Layout
import Whittle.Proofs.Parse.Failures
import Whittle.Proofs.Scoping.InPlace
import Whittle.Proofs.Typing.StrayJumps
import Whittle.Proofs.Identifiers.EnclosingFunction
import Whittle.Proofs.Scoping.WrittenNames
import Whittle.Proofs.Reduction.UnwrittenValues
import Whittle.Proofs.Identifiers.StatementLists
