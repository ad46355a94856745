import DoubleLang.Command.Run
import DoubleLang.File.Tree
import DoubleLang.Main
import DoubleLang.Proofs.Object.Correctness
import DoubleLang.Proofs.Object.Labels
import DoubleLang.Proofs.Program.Soundness
import DoubleLang.Proofs.Program.Viable
import DoubleLang.Proofs.Token.Munch
import DoubleLang.Proofs.Token.Fault
import DoubleLang.Source.LineTable
import DoubleLang.Proofs.Program.Notes
import DoubleLang.Proofs.Program.Relocation
import DoubleLang.Proofs.Object.Notes
import DoubleLang.Proofs.Compilation.Relocation
import DoubleLang.Proofs.Compilation.Outcome
import DoubleLang.Proofs.Compilation.Layout
import DoubleLang.Proofs.Program.Normal
import DoubleLang.Proofs.Token.Word
import DoubleLang.Proofs.Compilation.RoundTrip
import DoubleLang.Proofs.Object.PoolLoads
import DoubleLang.Proofs.Object.Independence
import DoubleLang.Proofs.Artifact.Decoding
import DoubleLang.Proofs.Command.Destination
import DoubleLang.Proofs.Command.Effects
import DoubleLang.Proofs.Command.Groups
import DoubleLang.Proofs.Frame.Liveness
import DoubleLang.Proofs.Frame.Storage
import DoubleLang.Proofs.Object.Failure
import DoubleLang.Proofs.Machine.Levels
import DoubleLang.Proofs.Object.StackDiscipline
import DoubleLang.Proofs.Object.Occurrence
import DoubleLang.Proofs.Object.Initialisation
import DoubleLang.Proofs.Object.Resolution
import DoubleLang.Proofs.Frame.Copies
import DoubleLang.Proofs.Object.Copies
import DoubleLang.Proofs.Compilation.Parentheses
import DoubleLang.Proofs.Program.Renaming
import DoubleLang.Proofs.Compilation.Renaming
import DoubleLang.Proofs.Compilation.Spans
