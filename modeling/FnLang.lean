import FnLang.CommandLine.Directory
import FnLang.Main
import FnLang.Node.Display
import FnLang.Proofs.BlockCount
import FnLang.Proofs.Boundary
import FnLang.Proofs.Climbing
import FnLang.Proofs.EndOfInput
import FnLang.Proofs.Isolation
import FnLang.Proofs.Literal
import FnLang.Proofs.Nesting
import FnLang.Proofs.PassedOver
import FnLang.Proofs.Sameness
import FnLang.Proofs.SourceOrder
import FnLang.Proofs.Truthful
