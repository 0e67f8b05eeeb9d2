import JobShell.Failure
import JobShell.System.Program

/-!
The controlling terminal, through which the foreground moves between the shell and
the pipelines it runs. A shell that never had the foreground may not take it from
another group; once it has taken it for itself it may always do so again.
-/
namespace JobShell

structure Terminal where
  /-- The descriptor of the terminal, if there is one to control. -/
  fd : Option Fd
  /-- The group of the shell. -/
  shellGroup : Pid
  /-- The shell has made its own group the foreground group before. -/
  ownsForeground : Bool := false
  deriving DecidableEq, Repr

namespace Terminal

def isAvailable (t : Terminal) : Bool := t.fd.isSome

/-- Opens the controlling terminal. Without one the handle is as a detached one. -/
def openControlling : Program Terminal := do
  let shellGroup ← Program.ask .groupId
  let flags : OpenFlags := { access := .readWrite, closeOnExec := true }
  match ← Program.ask (.openFile "/dev/tty" flags 0) with
  | .ok fd => return { fd := some fd, shellGroup }
  | .error _ => return { fd := none, shellGroup }

/-- A handle that controls nothing. -/
def detached : Program Terminal := do
  return { fd := none, shellGroup := ← Program.ask .groupId }

/-- Makes `group`, or else the shell's own, the foreground group. -/
def setForeground (t : Terminal) (group : Option Pid) :
    Program (Except ShellError Unit × Terminal) :=
  match t.fd with
  | none => return (.error (.terminal .notTerminal), t)
  | some fd => do
    match ← Program.ask (.foreground fd) with
    | .error e => return (.error (.terminal e), t)
    | .ok current =>
      if current ≠ t.shellGroup ∧ t.ownsForeground = false then
        return (.error (.terminal .perm), t)
      else
        match ← Program.ask (.setForeground fd (group.getD t.shellGroup)) with
        | .error e => return (.error (.terminal e), t)
        | .ok () => return (.ok (), { t with ownsForeground := t.ownsForeground || group.isNone })

end Terminal

end JobShell
