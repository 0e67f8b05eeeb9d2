import JobShell.Host.Editor
import JobShell.Proofs.Sitting

/-!
The shell on the host. The line editor there keeps out of the shell's way: it reads its input and
a history file, shows prompts and writes the history file.
-/
namespace JobShell

open Program

end JobShell
