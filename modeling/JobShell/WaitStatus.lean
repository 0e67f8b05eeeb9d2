import JobShell.CommandList
import JobShell.Signal

/-!
What waiting for a process can report, and the exit status that follows from it.
-/
namespace JobShell

inductive WaitStatus where
  | exited (code : Status)
  | signaled (signal : Signal)
  | stopped (signal : Signal)
  | continued
  | stillAlive
  deriving DecidableEq, Repr

namespace WaitStatus

/-- The exit code, or 128 plus the signal that killed or stopped the process. -/
def status? : WaitStatus → Option Status
  | exited code => some code
  | signaled signal | stopped signal => some (128 + (signal : Int))
  | continued | stillAlive => none

/-- Whether the process is gone. -/
def isTerminated : WaitStatus → Bool
  | exited _ | signaled _ => true
  | stopped _ | continued | stillAlive => false

end WaitStatus

end JobShell
