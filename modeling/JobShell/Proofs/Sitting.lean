import JobShell.Proofs.Line
import JobShell.Proofs.ReadLoop
import JobShell.Proofs.Requests
import JobShell.Proofs.Starting

/-!
A shell from its first line to its status. Wherever its lines come from, it evaluates them one
after another, and between them it starts no process, waits for none and looks for no interrupt.
It ends with the status that a line asked for, which is then the last line, or with the last
status, or with 1 if its input could not be read to the end.
-/
namespace JobShell

open Program

/-- The request has nothing to do with running pipelines. -/
def Request.IsAside (r : Request) : Prop := r.topic ≠ .children ∧ r.topic ≠ .interrupts

/-- Behind a line the shell goes on, or it has its status. -/
def Flow.taken (ctx : Context) : Flow → Context ⊕ Status
  | .continue => .inl ctx
  | .exit code => .inr code

/-- The shell gets and evaluates one line, in which it reaches the pipelines of the log. Or there
is no line to be had, or it is dropped while it is typed. -/
inductive LineTaken (ctx : Context) : List Event → List Turn → Context ⊕ Status → Prop
  | ended {t : List Event} {status : Status} : (∀ e ∈ t, e.request.IsAside) →
      status = ctx.lastStatus ∨ status = 1 → LineTaken ctx t [] (.inr status)
  | dropped {t : List Event} : (∀ e ∈ t, e.request.IsAside) →
      LineTaken ctx t [] (.inl { ctx with lastStatus := statusInterrupted })
  | evaluated {ctx' : Context} {t : List Event} {line : String} {x : Exchanges}
      {log : List Turn} {flow : Flow} : (∀ e ∈ t, e.request.IsAside) →
      Evaluation line ctx x log flow ctx' → LineTaken ctx (t ++ x.all) log (flow.taken ctx')

/-- From `ctx` on a shell takes lines up to the status that it ends with. -/
inductive Sitting : Context → List Event → List Turn → Status → Prop
  | last {ctx : Context} {t u : List Event} {log : List Turn} {status : Status} :
      LineTaken ctx t log (.inr status) → (∀ e ∈ u, e.request.IsAside) →
      Sitting ctx (t ++ u) log status
  | next {ctx ctx₁ : Context} {t u : List Event} {log rest : List Turn} {status : Status} :
      LineTaken ctx t log (.inl ctx₁) → Sitting ctx₁ u rest status →
      Sitting ctx (t ++ u) (log ++ rest) status

section

variable {ctx ctx' : Context} {t u : List Event} {log : List Turn} {status : Status}

theorem LineTaken.behind {taken : Context ⊕ Status} (h : LineTaken ctx u log taken)
    (ht : ∀ e ∈ t, e.request.IsAside) : LineTaken ctx (t ++ u) log taken := by
  cases h with
  | ended hown hstatus => exact .ended (List.forall_mem_append.mpr ⟨ht, hown⟩) hstatus
  | dropped hown => exact .dropped (List.forall_mem_append.mpr ⟨ht, hown⟩)
  | evaluated hown heval =>
    rw [← List.append_assoc]
    exact .evaluated (List.forall_mem_append.mpr ⟨ht, hown⟩) heval

/-- What a shell does before its first line belongs to the sitting. -/
theorem Sitting.behind (h : Sitting ctx u log status) (ht : ∀ e ∈ t, e.request.IsAside) :
    Sitting ctx (t ++ u) log status := by
  cases h with
  | last htaken hend =>
    rw [← List.append_assoc]
    exact .last (htaken.behind ht) hend
  | next htaken hrest =>
    rw [← List.append_assoc]
    exact .next (htaken.behind ht) hrest

/-- And so does what it does behind the last one. -/
theorem Sitting.before (h : Sitting ctx t log status) (hu : ∀ e ∈ u, e.request.IsAside) :
    Sitting ctx (t ++ u) log status := by
  induction h with
  | last htaken hend =>
    rw [List.append_assoc]
    exact .last htaken (List.forall_mem_append.mpr ⟨hend, hu⟩)
  | next htaken _ ih =>
    rw [List.append_assoc]
    exact .next htaken ih

section

variable {editor : Editor} {quiet : Bool} {state state' : editor.State}

/-- What a round of the interactive loop does with what was typed. -/
def takeTyped (ctx : Context) :
    Typed × editor.State → Program ((editor.State × Context) ⊕ (Status × editor.State × Context))
  | (.line line, state) => (ctx.evaluate line).bind fun
    | (.continue, ctx) => done (.inl (state, ctx))
    | (.exit code, ctx) => done (.inr (code, state, ctx))
  | (.interrupted, state) => done (.inl (state, { ctx with lastStatus := statusInterrupted }))
  | (.ended, state) => done (.inr (ctx.lastStatus, state, ctx))
  | (.failed message, state) => (complain s!"error reading input: {message}").bind fun _ =>
    done (.inr (1, state, ctx))

end

/-- Of the pipelines that a line reaches, one that ends the shell is the last. -/
theorem Stops.exit_last {flow : Flow} {turn : Turn} {code : Status} (h : Stops log (some flow))
    (hmem : turn ∈ log) (hexit : turn.ending = .exit code) :
    flow = .exit code ∧ log.getLast? = some turn := by
  have hnext (h : turn.ending.verdict = .next) : False := by
    rw [hexit] at h
    cases h
  generalize hstop : some flow = stop at h
  cases h with
  | goesOn _ => cases hstop
  | ended hlog => exact absurd (hlog turn hmem) hnext
  | @cut front last flow' hlog hcut =>
    cases hstop
    obtain hfront | hlast := List.mem_append.mp hmem
    · exact absurd (hlog turn hfront) hnext
    · obtain rfl := List.mem_singleton.mp hlast
      rw [hexit] at hcut
      cases hcut
      exact ⟨rfl, by simp⟩

theorem Evaluation.report {line : String} {x : Exchanges} {flow : Flow}
    (h : Evaluation line ctx x log flow ctx') :
    ∃ ps ctx₁ ctx₂, Report ps ctx₁ log (some flow) ctx₂ := by
  cases h with
  | intro _ hperforms _ =>
    cases hperforms with
    | list _ hproceeds => exact ⟨_, _, _, hproceeds.report⟩
    | refused _ _ => exact ⟨[], ctx, ctx, .slnil, by simp, rfl, .ended (by simp)⟩

/-- In a sitting, every pipeline that was reached has turned out as its turn says. One that ends
the shell is the last of all, and its status is that of the shell. -/
theorem Sitting.turn {turn : Turn} (h : Sitting ctx t log status) (hmem : turn ∈ log) :
    TurnsOut turn.pipeline turn.before turn.trace turn.ending turn.after ∧
      ∀ code, turn.ending = .exit code → status = code ∧ log.getLast? = some turn := by
  induction h with
  | @last ctx t u log status htaken _ =>
    generalize hresult : (Sum.inr status : Context ⊕ Status) = taken at htaken
    cases htaken with
    | ended _ _ => cases hmem
    | dropped _ => cases hmem
    | @evaluated _ _ _ _ _ flow _ heval =>
      obtain ⟨_, _, _, hreport⟩ := heval.report
      refine ⟨hreport.turnsOut turn hmem, fun code hexit => ?_⟩
      obtain ⟨rfl, hlast⟩ := hreport.stops.exit_last hmem hexit
      cases hresult
      exact ⟨rfl, hlast⟩
  | @next ctx ctx₁ t u log rest status htaken hrest ih =>
    generalize hresult : (Sum.inl ctx₁ : Context ⊕ Status) = taken at htaken
    obtain hmem | hmem := List.mem_append.mp hmem
    · cases htaken with
      | ended _ _ => cases hmem
      | dropped _ => cases hmem
      | @evaluated _ _ _ _ _ flow _ heval =>
        obtain ⟨_, _, _, hreport⟩ := heval.report
        refine ⟨hreport.turnsOut turn hmem, fun code hexit => ?_⟩
        obtain ⟨rfl, -⟩ := hreport.stops.exit_last hmem hexit
        cases hresult
    · obtain ⟨hturns, hexit⟩ := ih hmem
      refine ⟨hturns, fun code hcode => ?_⟩
      obtain ⟨hstatus, hlast⟩ := hexit code hcode
      refine ⟨hstatus, ?_⟩
      rw [List.getLast?_append, hlast]
      rfl

end

end JobShell
