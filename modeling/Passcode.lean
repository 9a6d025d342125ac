import Passcode.Main
import Passcode.Session
import Passcode.Proofs.Numbering
import Passcode.Proofs.Reach
import Passcode.Proofs.Spellings
import Passcode.Proofs.Dominance
import Passcode.Proofs.Blocks
import Passcode.Proofs.Symmetries
import Passcode.Proofs.Walks
import Passcode.Proofs.Cycles
import Passcode.Proofs.Surveys
import Passcode.Proofs.Searches
import Passcode.Proofs.Commands
import Passcode.Proofs.Sessions
