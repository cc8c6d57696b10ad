import Keystroke.BoundedStack
import Keystroke.Main
import Keystroke.Proofs.AcceptedTexts
import Keystroke.Proofs.Answers
import Keystroke.Proofs.Bindings.Forgetting
import Keystroke.Proofs.CallPackages
import Keystroke.Proofs.Calls.Discipline
import Keystroke.Proofs.Catalog
import Keystroke.Proofs.CursorArguments
import Keystroke.Proofs.CursorCycles
import Keystroke.Proofs.DynamicScoping
import Keystroke.Proofs.FailedSamples.Handling
import Keystroke.Proofs.FourLevels.Reachable
import Keystroke.Proofs.Integration
import Keystroke.Proofs.Listings.RoundTrip
import Keystroke.Proofs.Locks
import Keystroke.Proofs.Places.Reachable
import Keystroke.Proofs.RecallAfterStore
import Keystroke.Proofs.RefusedLines
import Keystroke.Proofs.Requests.Sessions
import Keystroke.Proofs.SingleStep
import Keystroke.Proofs.Slices
import Keystroke.Proofs.StackLift
import Keystroke.Proofs.StateFile.Checks
import Keystroke.Proofs.StateFile.LongTexts
import Keystroke.Proofs.StateFile.OlderLayouts
import Keystroke.Proofs.StateFile.Truncation
import Keystroke.Proofs.Typing.LineSteps
import Keystroke.Proofs.Walks
