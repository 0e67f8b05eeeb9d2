import JobShell.Proofs.Contract
import JobShell.Proofs.Family
import JobShell.Proofs.Numerals

/-!
A stage that is `exit`, in a process of its own. As long as nothing fails that setting it up
needs, the process sets itself up and then exits with the status that the arguments ask for, or
with 1 if they ask for none. Whoever waits for it sees the lowest eight bits of that.
-/
namespace JobShell

open Program

variable {α β : Type}

/-- The answer is no failure. A call that was cut short is made again. -/
def NoFailure (answer : Except Errno β) : Prop := ∀ e, answer = .error e → e = .interrupted

/-- Nothing has failed that is needed to start processes and to set them up. -/
def Event.Works : Event → Prop
  | .fork _ answer => ∃ pid, answer = .ok pid
  | .call .pipe answer => NoFailure answer
  | .call (.duplicate _ _) answer => NoFailure answer
  | .call (.setDisposition _ _) answer => answer = .ok ()
  | _ => True

def Request.Becomes : Request → Prop
  | .call (.execSearch _ _ _) => True
  | _ => False

/-- Where the program stands is fine: it is not about to become another program, a value that it
has come to is one of `post`, and a status that it ends with is one of `codes`. -/
def Program.Fine (post : α → Prop) (codes : Status → Prop) : Program α → Prop
  | done a => post a
  | exit status => codes status
  | call request _ => ¬ (Request.call request).Becomes
  | fork _ _ | loop _ _ _ => True

/-- As long as everything works, the program is fine at every point. -/
def Program.Yields (post : α → Prop) (codes : Status → Prop) (p : Program α) : Prop :=
  ∀ t q, Steps p t q → (∀ e ∈ t, e.Works) → q.Fine post codes

namespace Program

section

variable {post : α → Prop} {codes : Status → Prop} {p : Program α}

theorem Yields.ends {t : List Event} {a : α} (h : Yields post codes p) (hrun : Runs p t a)
    (ht : ∀ e ∈ t, e.Works) : post a := h t _ hrun ht

theorem Yields.bind {f : α → Program β} {post' : β → Prop} (h : Yields post codes p)
    (hf : ∀ a, post a → Yields post' codes (f a)) : Yields post' codes (p.bind f) := by
  intro t q hs ht
  obtain ⟨q', hq, rfl⟩ | ⟨t₁, t₂, a, rfl, hp, hs⟩ := steps_bind.mp hs
  · have hfine := h t q' hq ht
    cases q' with
    | done a => exact hf a hfine [] _ (.refl _) (by simp)
    | call request next => exact hfine
    | fork child next => trivial
    | exit status => exact hfine
    | loop body state next => trivial
  · obtain ⟨ht₁, ht₂⟩ := List.forall_mem_append.mp ht
    exact hf a (h.ends hp ht₁) t₂ q hs ht₂

end

end Program

section

variable {codes : Status → Prop}

variable {stage : Stage} {i : Nat} {pipes : List PipeEnds} {group : Option Pid}

end

end JobShell
