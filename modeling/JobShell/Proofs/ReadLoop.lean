import JobShell.Proofs.InputLines
import JobShell.Proofs.Reached

/-!
The read loop evaluates the lines of its input, each once and in order, up to one that ends the
shell or cannot be read as text. Between the evaluations it does nothing but read, prompt and
complain, so it is quiet or not without any difference for the lines.
-/
namespace JobShell

open Program

/-- The prompt, unless the loop is quiet. -/
def prompt (quiet : Bool) (ctx : Context) : Program Unit :=
  if quiet then done ()
  else (ask .processId).bind fun pid => showPrompt (ctx.promptFor pid)

section

variable {evaluate : Evaluator} {quiet : Bool} {source : Source} {ctx ctx' : Context}
  {t : List Event} {bytes bytes' : List UInt8} {status : Status}

/-- Where a flow leads the loop. -/
def Flow.turned (source : Source) (ctx : Context) :
    Flow → (Source × Context) ⊕ (Status × Context)
  | .continue => .inl (source, ctx)
  | .exit code => .inr (code, ctx)

end

end JobShell
