import JobShell.System.Program

/-!
Text for a descriptor. What the shell prints has to be written: where it cannot be, the
process is aborted. A descriptor that is closed takes everything.
-/
namespace JobShell

/-- Writes text once; whether it could be written is nobody's business. -/
def writeText (fd : Fd) (text : String) : Program Unit := do
  let _ ← Program.ask (.write fd text.toUTF8)

/-- One round of writing. It ends with whether everything could be written. -/
def writeRound (fd : Fd) (data : ByteArray) : Program (ByteArray ⊕ Bool) :=
  if data.isEmpty then return .inr true
  else do
    match ← Program.ask (.write fd data) with
    | .ok count =>
      if count = 0 then return .inr false
      else return .inl (data.extract count data.size)
    | .error e =>
      if e = .interrupted then return .inl data
      else return .inr (e = .badFile)

/-- Writes piece after piece until nothing is left or nothing more can be written. -/
def writeAll (fd : Fd) (data : ByteArray) : Program Bool := Program.iterate (writeRound fd) data

/-- Writes text, or else aborts the process. -/
def printText (fd : Fd) (text : String) : Program Unit := do
  if ← writeAll fd text.toUTF8 then return () else Program.abort

end JobShell
