import LetLang.Main
import LetLang.Proofs.Descent.Agreement
import LetLang.Proofs.Dialogue.Colour
import LetLang.Proofs.Dialogue.Command
import LetLang.Proofs.Dialogue.Continuation
import LetLang.Proofs.Dialogue.Layout
import LetLang.Proofs.Dialogue.Memory
import LetLang.Proofs.Dialogue.Position
import LetLang.Proofs.Dialogue.Prompt
import LetLang.Proofs.Dialogue.Repl
import LetLang.Proofs.Dialogue.Survival
import LetLang.Proofs.Evaluation.Alternative
import LetLang.Proofs.Evaluation.Flattening
import LetLang.Proofs.Evaluation.Footprint
import LetLang.Proofs.Evaluation.Matching
import LetLang.Proofs.Evaluation.Order
import LetLang.Proofs.Evaluation.Safety
import LetLang.Proofs.Evaluation.Types
import LetLang.Proofs.Grammar.Prefix
import LetLang.Proofs.Grammar.Rendering
import LetLang.Proofs.Invocation.FileRun
import LetLang.Proofs.Number.Display
import LetLang.Proofs.Report.Caret
import LetLang.Proofs.Report.History
import LetLang.Proofs.Scope.Endurance
import LetLang.Proofs.Scope.Readers
import LetLang.Proofs.Text.Run
import LetLang.Proofs.Text.Tidying
import LetLang.Proofs.Token.Coverage
import LetLang.Proofs.Token.Domain
import LetLang.Proofs.Token.Layout
import LetLang.Proofs.Tree.Display
import LetLang.Proofs.Tree.Machine
import LetLang.Proofs.Workspace.Feeding
import LetLang.Proofs.Workspace.Queue
