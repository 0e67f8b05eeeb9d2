import JobShell.Proofs.Cut
import JobShell.Proofs.HostEditor
import JobShell.Proofs.Reaping
import JobShell.Proofs.StatusRange

/-!
The ways on which a line can reach the shell: the option for it, a script, or standard input. On
all of them it is run in the same way, and the shell ends with the same status; what else is done
on a way is reading, prompting, and asking after jobs.
-/
namespace JobShell

open Program

/-- The exit status of a shell whose last line was left like this. -/
def Flow.status (ctx : Context) : Flow → Status
  | .continue => ctx.lastStatus
  | .exit code => code

/-- What the shell does before and after a line: it gets the line, prompts, complains, forgets an
earlier interrupt and asks after its jobs. It may be aborted. -/
def Request.IsUpkeep : Request → Prop
  | .call (.openFile _ _ _) | .call (.close _) | .call (.read _ _) | .call (.write _ _)
  | .call .processId | .call (.forget _) | .call .abort => True
  | .call (.wait _ options) => options.noHang = true
  | _ => False

/-- Around the exchanges `u` there is nothing but upkeep. -/
def Surrounds (t u : List Event) : Prop :=
  ∃ before after, t = before ++ (u ++ after) ∧
    ∀ e ∈ before ++ after, e.request.IsUpkeep

theorem Surrounds.extend {t u before after : List Event} (h : Surrounds t u)
    (hb : ∀ e ∈ before, e.request.IsUpkeep) (ha : ∀ e ∈ after, e.request.IsUpkeep) :
    Surrounds (before ++ (t ++ after)) u := by
  obtain ⟨first, last, rfl, hown⟩ := h
  obtain ⟨hfirst, hlast⟩ := List.forall_mem_append.mp hown
  have hbefore := List.forall_mem_append.mpr ⟨hb, hfirst⟩
  have hafter := List.forall_mem_append.mpr ⟨hlast, ha⟩
  exact ⟨before ++ first, last ++ after, by simp, List.forall_mem_append.mpr ⟨hbefore, hafter⟩⟩

section

variable {line : String} {ctx ctx' : Context} {t u : List Event} {flow : Flow}

end

section

variable {line : String} {ctx ctx' : Context} {t u v : List Event} {fd : Fd} {quiet : Bool}
  {log : List (String × List Event)} {source : Source} {bytes : List UInt8} {status : Status}

end

namespace Way

end Way

section

variable {line : String} {ctx ctx' : Context} {t u : List Event} {editor : Editor}
  {options : Options} {way : Way} {status : Status}

end

end JobShell
