import Sprog.Main
import Sprog.Proofs.Boundary
import Sprog.Proofs.Isolation
import Sprog.Proofs.Seam
import Sprog.Proofs.Layout
import Sprog.Proofs.Origins
import Sprog.Proofs.Globals
import Sprog.Proofs.Calls
import Sprog.Proofs.Accesses
import Sprog.Proofs.Munch
import Sprog.Proofs.Lexical
import Sprog.Proofs.Traces
import Sprog.Proofs.Allowance
import Sprog.Proofs.Discipline
import Sprog.Proofs.Stored
import Sprog.Proofs.Termination
import Sprog.Proofs.Conformity
import Sprog.Proofs.Transparency
import Sprog.Proofs.Truncation
import Sprog.Proofs.Counting
import Sprog.Proofs.Blanks
import Sprog.Proofs.Modes
import Sprog.Proofs.Containment
import Sprog.Proofs.Frame
import Sprog.Proofs.Ordering
import Sprog.Proofs.Viability
import Sprog.Proofs.Respacing
import Sprog.Proofs.Places
import Sprog.Proofs.Printed
import Sprog.Proofs.Progress
