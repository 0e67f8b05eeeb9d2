import JobShell.Script.Expansion

/-!
Redirections of a script's commands. Descriptors that a command in the shell itself changes
are put back afterwards.
-/
namespace JobShell.Script

structure Saved where
  fd : Fd
  copy : Option Fd

/-- Copies are kept from this descriptor on. -/
def firstCopy : Fd := 10

def saveFd (fd : Fd) : Program Saved := do
  match ← Program.ask (.duplicateFrom fd firstCopy) with
  | .ok copy => return { fd, copy := some copy }
  | .error _ => return { fd, copy := none }

/-- Puts descriptors back, the one changed last first. -/
def putBack : List Saved → Program Unit
  | [] => return ()
  | saved :: rest => do
    match saved.copy with
    | some copy =>
      let _ ← Program.ask (.duplicate copy saved.fd)
      let _ ← Program.ask (.close copy)
    | none =>
      let _ ← Program.ask (.close saved.fd)
    putBack rest

def openProblem (path : String) (flags : OpenFlags) (e : Errno) : String :=
  let absent := e = .noEntry ∨ e = .notDirectory
  let (verb, gone) := if flags.create then ("create", "Directory nonexistent")
    else ("open", "No such file")
  let why := if absent then gone else e.sentence
  s!"cannot {verb} {path}: {why}"

def moveFd (source target : Fd) : Program Unit := do
  if source ≠ target then
    let _ ← Program.ask (.duplicate source target)
    let _ ← Program.ask (.close source)

/-- Carries out redirections in order. With `keep`, the changed descriptors are returned, the
last first. -/
def redirectAll (evaluate : Evaluator) (keep : Bool) :
    List Saved → List Redirect → Expander (List Saved)
  | saved, [] => return saved
  | saved, .file fd flags target :: rest => do
    let path ← expandText evaluate target
    match ← Program.retry (.openFile path flags 0o666) with
    | .error e =>
      putBack saved
      throw (openProblem path flags e)
    | .ok opened =>
      let saved ← if keep then
          if opened = fd then pure ({ fd, copy := none } :: saved)
          else do
            let entry ← (saveFd fd : Program Saved)
            pure (entry :: saved)
        else pure saved
      moveFd opened fd
      redirectAll evaluate keep saved rest
  | saved, .copy fd source :: rest => do
    let text ← expandText evaluate source
    let saved ← if keep then do
        let entry ← (saveFd fd : Program Saved)
        pure (entry :: saved)
      else pure saved
    if text = "-" then
      let _ ← Program.ask (.close fd)
      redirectAll evaluate keep saved rest
    else
      match Utility.number? text with
      | none =>
        putBack saved
        throw "Syntax error: Bad fd number"
      | some number =>
        match ← Program.ask (.duplicate number fd) with
        | .ok () => redirectAll evaluate keep saved rest
        | .error e =>
          putBack saved
          throw s!"{number}: {e.sentence}"

end JobShell.Script
