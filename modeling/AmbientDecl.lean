import AmbientDecl.Command.Pipeline
import AmbientDecl.Main
import AmbientDecl.Output.Label
import AmbientDecl.Proofs.Action.Ends
import AmbientDecl.Proofs.Model.Outline
import AmbientDecl.Proofs.Model.Advance
import AmbientDecl.Proofs.Model.Merge
import AmbientDecl.Proofs.Model.Linking
import AmbientDecl.Proofs.Model.Consistent
import AmbientDecl.Proofs.Model.Assembled
import AmbientDecl.Proofs.Model.Contract
import AmbientDecl.Proofs.Model.Steady
import AmbientDecl.Proofs.Model.Run
import AmbientDecl.Proofs.Model.WellTyped
import AmbientDecl.Proofs.Model.Cycles
import AmbientDecl.Proofs.Model.Declared
import AmbientDecl.Proofs.Model.Meaning
import AmbientDecl.Proofs.TypeExpr.Complete
import AmbientDecl.Proofs.TypeExpr.Sound
import AmbientDecl.Proofs.TypeExpr.Reading
import AmbientDecl.Proofs.Model.Quiet
import AmbientDecl.Proofs.Model.Watched
import AmbientDecl.Proofs.Model.Moves
import AmbientDecl.Proofs.Model.Calls
import AmbientDecl.Proofs.Model.Room
import AmbientDecl.Proofs.Model.Machine
import AmbientDecl.Proofs.Model.Acyclic
import AmbientDecl.Proofs.Model.Reference
import AmbientDecl.Proofs.Namespaces
import AmbientDecl.Proofs.Model.Housed
import AmbientDecl.Proofs.Output.Texts
import AmbientDecl.Proofs.Output.Lines
import AmbientDecl.Proofs.Output.Levels
import AmbientDecl.Proofs.Output.Once
import AmbientDecl.Proofs.Dotted
import AmbientDecl.Proofs.Keyed
import AmbientDecl.Proofs.Model.Registry
import AmbientDecl.Proofs.Model.Registrations
import AmbientDecl.Proofs.Model.Attached
import AmbientDecl.Proofs.Model.Accounted
import AmbientDecl.Proofs.Model.Opened
import AmbientDecl.Proofs.Blank
import AmbientDecl.Proofs.TypeExpr.Lexing
import AmbientDecl.Proofs.TypeExpr.Tiling
import AmbientDecl.Proofs.TypeExpr.Boundary
import AmbientDecl.Proofs.TypeExpr.Readable
import AmbientDecl.Proofs.TypeExpr.Normal
import AmbientDecl.Proofs.TypeExpr.Brackets
import AmbientDecl.Proofs.TypeExpr.Spells
import AmbientDecl.Proofs.TypeExpr.Spelling
import AmbientDecl.Proofs.Model.Lowering
import AmbientDecl.Proofs.Action.Keeps
import AmbientDecl.Proofs.Model.Requests
import AmbientDecl.Proofs.Model.Growth
import AmbientDecl.Proofs.Model.Mute
import AmbientDecl.Proofs.Model.Tally
import AmbientDecl.Proofs.Model.MixinFates
import AmbientDecl.Proofs.Interleaving
import AmbientDecl.Proofs.Model.Reads
import AmbientDecl.Proofs.Model.Alike
import AmbientDecl.Proofs.Model.Landing
import AmbientDecl.Proofs.Model.Interleaved
import AmbientDecl.Proofs.TypeExpr.FirstFault
import AmbientDecl.Proofs.Model.Hearing
import AmbientDecl.Proofs.Model.Conversions
import AmbientDecl.Proofs.Model.Passes
import AmbientDecl.Proofs.Model.Rehearsed
import AmbientDecl.Proofs.Model.Told
import AmbientDecl.Proofs.Model.Copies
import AmbientDecl.Proofs.Model.Heedless
import AmbientDecl.Proofs.Model.Ignored
import AmbientDecl.Proofs.TypeExpr.Printed
import AmbientDecl.Proofs.TypeExpr.Ellipsis
import AmbientDecl.Proofs.TypeExpr.Around
import AmbientDecl.Proofs.Model.RestParams
import AmbientDecl.Proofs.Model.Described
import AmbientDecl.Proofs.TypeExpr.Balanced
import AmbientDecl.Proofs.Output.Branches
import AmbientDecl.Proofs.Output.Overloads
import AmbientDecl.Proofs.Output.Comments
import AmbientDecl.Proofs.Output.Paragraphs
import AmbientDecl.Proofs.Model.Counted
import AmbientDecl.Proofs.Model.LocalNames
import AmbientDecl.Proofs.Output.Quoting
import AmbientDecl.Proofs.Model.HalfDone
import AmbientDecl.Proofs.Model.Retry
import AmbientDecl.Proofs.Json.Keys
import AmbientDecl.Proofs.Config.Merge
import AmbientDecl.Proofs.Json.Reordered
import AmbientDecl.Proofs.Json.Lexed
import AmbientDecl.Proofs.Json.ReadBack
import AmbientDecl.Proofs.Config.Fingerprint
import AmbientDecl.Proofs.Created
import AmbientDecl.Proofs.Config.Tables
import AmbientDecl.Proofs.Command.Path
import AmbientDecl.Proofs.Command.Disk
import AmbientDecl.Proofs.Command.Switches
import AmbientDecl.Proofs.Command.Settings
import AmbientDecl.Proofs.Command.Known
import AmbientDecl.Proofs.Command.Converter
import AmbientDecl.Proofs.Command.Pipeline
