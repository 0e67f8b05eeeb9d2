import JobShell.Host.Trials

/-!
The shell at work on a host of its own. Its input is read to the end first; what it and its
programs write is passed on when it has ended.
-/
open JobShell

partial def readToEnd (stream : IO.FS.Stream) (data : ByteArray) : IO ByteArray := do
  let piece ← stream.read 65536
  if piece.isEmpty then return data else readToEnd stream (data ++ piece)

/-- The exit status that a system would show for how a process ended. -/
def shownStatus : Option WaitStatus → UInt32
  | some (.exited code) => UInt32.ofNat (code % 256).toNat
  | some (.signaled signal) => UInt32.ofNat (128 + signal)
  | _ => 1

def main (args : List String) : IO UInt32 := do
  let stdin ← IO.getStdin
  let data ← readToEnd stdin .empty
  let input := if ← stdin.isTty then Host.Feed.typed data else .file data
  let (ended, host) := Host.runProgramHere { input } "jcsh" args
  (← IO.getStdout).write host.outputText
  (← IO.getStderr).write host.errorText
  return shownStatus ended
