import Easel.Command.Desk
import Easel.Main
import Easel.Proofs.Checked.NameOrder
import Easel.Proofs.Code.Capacity
import Easel.Proofs.Grammar.Reprinting
import Easel.Proofs.Machine.Comparison
import Easel.Proofs.Machine.Failure
import Easel.Proofs.Machine.Literals
import Easel.Proofs.Meaning.Preservation
import Easel.Proofs.RoundTrip
import Easel.Proofs.Session.Balance
import Easel.Proofs.Session.FinalReturn
import Easel.Proofs.Session.LeftOperand
import Easel.Proofs.Session.Limit
import Easel.Proofs.Space.Pool
import Easel.Proofs.Token.Rendering
import Easel.Screen.Journal
