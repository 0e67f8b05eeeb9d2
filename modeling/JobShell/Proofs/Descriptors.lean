import Mathlib.Logic.Function.Basic
import JobShell.Proofs.Requests

/-!
The descriptors of a process. A table says what each of them refers to. A call that needs a
new descriptor takes the lowest that is free, copying fails only where there is nothing to copy,
and what opening a path gives is left to the system. What the shell does to its table while it
starts a pipeline follows step by step: the pipes are laid on descriptors that were free and
taken off again, and a redirection changes the descriptor of its stream alone.
-/
namespace JobShell

open Program

/-- What a descriptor refers to. The pipes that are made are told apart by number, and anything
else is a file. -/
inductive Referent where
  | file (id : Nat)
  | readEnd (pipe : Nat)
  | writeEnd (pipe : Nat)
  deriving DecidableEq, Repr

/-- What the descriptors of a process refer to; a closed one refers to nothing. -/
abbrev Table := Fd → Option Referent

/-- What opening a path can give, which may be an end of a pipe. -/
abbrev Names := String → OpenFlags → Referent → Prop

namespace Table

/-- The first closed descriptor from `least` on. -/
structure LowestFree (T : Table) (least fd : Fd) : Prop where
  closed : T fd = none
  bound : least ≤ fd
  lowest : ∀ k < fd, least ≤ k → T k ≠ none

/-- What an exchange makes of a table, where the next pipe has the number `n`. -/
def Step (names : Names) (n : Nat) (T : Table) : Event → Table → Prop
  | .call (.openFile path flags _) answer, T' =>
    match answer with
    | .ok fd => T.LowestFree 0 fd ∧
        ∃ what, names path flags what ∧ T' = Function.update T fd (some what)
    | .error _ => T' = T
  | .call .pipe answer, T' =>
    match answer with
    | .ok (reading, writing) => ∃ U, U = Function.update T reading (some (.readEnd n)) ∧
        T.LowestFree 0 reading ∧ LowestFree U 0 writing ∧
        T' = Function.update U writing (some (.writeEnd n))
    | .error _ => T' = T
  | .call (.duplicate source target) answer, T' =>
    match answer with
    | .ok () => ∃ what, T source = some what ∧ T' = Function.update T target (some what)
    | .error e => (e = .interrupted ∨ T source = none) ∧ T' = T
  | .call (.duplicateFrom source least) answer, T' =>
    match answer with
    | .ok fd => T.LowestFree least fd ∧
        ∃ what, T source = some what ∧ T' = Function.update T fd (some what)
    | .error _ => T source = none ∧ T' = T
  | .call (.close fd) _, T' => T' = Function.update T fd none
  | _, T' => T' = T

theorem LowestFree.first {T : Table} {least : Fd} (h : T least = none) :
    T.LowestFree least least :=
  ⟨h, Nat.le_refl least, fun _ hlt hle => absurd hle (Nat.not_le_of_lt hlt)⟩

section

variable {names : Names} {n : Nat} {T : Table}

theorem Step.opens {path : String} {flags : OpenFlags} {permissions : Nat} {fd : Fd}
    {what : Referent} (h : T.LowestFree 0 fd) (hn : names path flags what) :
    T.Step names n (.call (.openFile path flags permissions) (.ok fd))
      (Function.update T fd (some what)) :=
  And.intro h ⟨what, hn, rfl⟩

theorem Step.makesPipe {reading writing : Fd} (hr : T.LowestFree 0 reading)
    (hw : LowestFree (Function.update T reading (some (.readEnd n))) 0 writing) :
    T.Step names n (.call .pipe (.ok (reading, writing)))
      (Function.update (Function.update T reading (some (.readEnd n))) writing
        (some (.writeEnd n))) :=
  Exists.intro _ ⟨rfl, hr, hw, rfl⟩

theorem Step.copies {source target : Fd} {what : Referent} (h : T source = some what) :
    T.Step names n (.call (.duplicate source target) (.ok ()))
      (Function.update T target (some what)) :=
  Exists.intro what ⟨h, rfl⟩

theorem Step.saves {source least fd : Fd} {what : Referent} (hf : T.LowestFree least fd)
    (h : T source = some what) :
    T.Step names n (.call (.duplicateFrom source least) (.ok fd))
      (Function.update T fd (some what)) :=
  And.intro hf ⟨what, h, rfl⟩

theorem Step.closes {fd : Fd} {answer : Except Errno Unit} :
    T.Step names n (.call (.close fd) answer) (Function.update T fd none) := rfl

end

theorem step_other {names : Names} {n : Nat} {T T' : Table} {e : Event}
    (h : ¬ e.request.OnDescriptors) : T.Step names n e T' ↔ T' = T := by
  cases e with
  | fork child answer => rfl
  | call request answer => cases request <;> first | exact absurd trivial h | rfl

/-- Only a new pipe gets a number. -/
theorem Step.renumber {names : Names} {n m : Nat} {T T' : Table} {e : Event}
    (he : ∀ answer, e ≠ .call .pipe answer) (h : T.Step names n e T') : T.Step names m e T' := by
  cases e with
  | fork child answer => exact h
  | call request answer => cases request <;> first | exact absurd rfl (he _) | exact h

/-- The table with these descriptors closed. -/
def without (T : Table) (fds : List Fd) : Table := fun fd => if fd ∈ fds then none else T fd

@[simp] theorem without_nil (T : Table) : T.without [] = T := by
  funext fd
  simp [without]

theorem without_cons (T : Table) (fd : Fd) (fds : List Fd) :
    T.without (fd :: fds) = without (Function.update T fd none) fds := by
  funext k
  by_cases h : k = fd <;> simp [without, h]

end Table

/-- Whether a request adds a process or a pipe to the system. -/
def Request.Creates : Request → Prop
  | .fork _ | .call .pipe => True
  | _ => False

def Event.newPipes : Event → List PipeEnds
  | .call .pipe (.ok ends) => [ends]
  | _ => []

def Event.newForks : Event → Nat
  | .fork _ (.ok _) => 1
  | _ => 0

/-- What a process has: its descriptors, the pipes it has made so far and the number of
processes it has started. -/
structure Desk where
  table : Table
  pipes : List PipeEnds := []
  forks : Nat := 0

structure Desk.Step (names : Names) (d : Desk) (e : Event) (d' : Desk) : Prop where
  table : d.table.Step names d.pipes.length e d'.table
  pipes : d'.pipes = d.pipes ++ e.newPipes
  forks : d'.forks = d.forks + e.newForks

theorem Desk.Step.of_table {names : Names} {d : Desk} {e : Event} {T : Table}
    (h : d.table.Step names d.pipes.length e T) :
    d.Step names e ⟨T, d.pipes ++ e.newPipes, d.forks + e.newForks⟩ :=
  ⟨h, rfl, rfl⟩

theorem Request.IsPlain.not_creates {r : Request} (h : r.IsPlain) : ¬ r.Creates := by
  cases r with
  | fork child => exact absurd trivial h.1
  | call request => cases request <;> first | exact absurd trivial h.2 | exact id

theorem newPipes_eq_nil {e : Event} (h : ¬ e.request.Creates) : e.newPipes = [] := by
  cases e with
  | fork child answer => rfl
  | call request answer => cases request <;> first | exact absurd trivial h | rfl

theorem newForks_eq_zero {e : Event} (h : ¬ e.request.Creates) : e.newForks = 0 := by
  cases e with
  | fork child answer => exact absurd trivial h
  | call request answer => rfl

/-- What creates nothing changes the table alone. -/
theorem Desk.Step.eq_of_not_creates {names : Names} {d d' : Desk} {e : Event}
    (h : d.Step names e d') (he : ¬ e.request.Creates) : d' = { d with table := d'.table } := by
  obtain ⟨T', pipes', forks'⟩ := d'
  obtain ⟨-, hp, hf⟩ := h
  simp only [newPipes_eq_nil he, newForks_eq_zero he, List.append_nil, Nat.add_zero] at hp hf
  rw [hp, hf]

theorem Desk.Step.eq_of_isPlain {names : Names} {d d' : Desk} {e : Event}
    (h : d.Step names e d') (he : e.request.IsPlain) : d' = d := by
  rw [h.eq_of_not_creates he.not_creates, (Table.step_other he.2).mp h.table]

theorem Desk.Step.of_isPlain {names : Names} {d : Desk} {e : Event} (h : e.request.IsPlain) :
    d.Step names e d := by
  refine ⟨(Table.step_other h.2).mpr rfl, ?_, ?_⟩
  · rw [newPipes_eq_nil h.not_creates, List.append_nil]
  · rw [newForks_eq_zero h.not_creates, Nat.add_zero]

theorem leads_of_isPlain {names : Names} {d : Desk} {t : List Event}
    (h : ∀ e ∈ t, e.request.IsPlain) : Leads (Desk.Step names) d t d := by
  induction t with
  | nil => exact .nil
  | cons e t ih =>
    simp only [List.mem_cons, forall_eq_or_imp] at h
    exact .cons (.of_isPlain h.1) (ih h.2)

/-- A new process changes nothing but the count. -/
theorem Desk.Step.eq_of_fork {names : Names} {d d' : Desk} {child : Program Empty}
    {answer : Except Errno Pid} (h : d.Step names (.fork child answer) d') :
    d' = { d with forks := d.forks + (Event.fork child answer).newForks } := by
  obtain ⟨table, pipes, forks⟩ := d'
  obtain ⟨htable, hpipes, hforks⟩ := h
  simp only [Event.newPipes, List.append_nil] at hpipes
  rw [hpipes, ← hforks, show table = d.table from htable]

section

variable {names : Names} {allowed : Desk → Request → Prop}

/-- Plain programs leave the desk as it is. -/
theorem Plain.ensures {α : Type} {p : Program α} {d : Desk} (h : Plain p)
    (ha : ∀ d r, ¬ r.Creates → allowed d r) :
    Ensures (Desk.Step names) allowed d p fun d' _ => d' = d := by
  intro t q d' hs hl
  have hsame : d' = d := hl.unchanged fun e he _ hstep => hstep.eq_of_isPlain (h.events hs e he)
  exact ⟨fun r hr => ha d' r (h t q r hs hr).not_creates, fun _ _ => hsame⟩

/-- Closing always works. -/
theorem ensures_close {d : Desk} (fd : Fd) (ha : ∀ d r, ¬ r.Creates → allowed d r) :
    Ensures (Desk.Step names) allowed d (ask (.close fd)) fun d' _ =>
      d' = { d with table := Function.update d.table fd none } := by
  refine ensures_ask (ha d _ id) ?_
  intro answer d' hs
  rw [hs.eq_of_not_creates id]
  exact congrArg (fun T => { d with table := T }) hs.table

/-- An open descriptor can be copied, however often that is cut short. -/
theorem ensures_duplicate {d : Desk} {source : Fd} (target : Fd) {what : Referent}
    (h : d.table source = some what) (ha : ∀ d r, ¬ r.Creates → allowed d r) :
    Ensures (Desk.Step names) allowed d (retry (.duplicate source target)) fun d' answer =>
      answer = .ok () ∧ d' = { d with table := Function.update d.table target (some what) } := by
  refine ensures_retry (· = d) rfl (fun d _ => ha d _ id) ?_ ?_
  · rintro d' d'' rfl hs
    rw [hs.eq_of_not_creates id, hs.table.2]
  · rintro d' answer d'' rfl hne hs
    cases answer with
    | error e =>
      obtain ⟨rfl | hnone, -⟩ := hs.table
      · exact absurd rfl hne
      · rw [h] at hnone
        cases hnone
    | ok value =>
      obtain ⟨what', hsource, htable⟩ := hs.table
      obtain rfl : what' = what := by simpa [h] using hsource.symm
      rw [hs.eq_of_not_creates id, htable]
      exact ⟨rfl, rfl⟩

/-- A path is opened on a closed descriptor, or nothing changes. -/
theorem ensures_openFile {d : Desk} (path : String) (flags : OpenFlags) (permissions : Nat)
    (ha : ∀ d r, ¬ r.Creates → allowed d r) :
    Ensures (Desk.Step names) allowed d (retry (.openFile path flags permissions))
      fun d' opened => match opened with
        | .ok fd => d.table fd = none ∧ ∃ what, names path flags what ∧
            d' = { d with table := Function.update d.table fd (some what) }
        | .error _ => d' = d := by
  refine ensures_retry (· = d) rfl (fun d _ => ha d _ id) ?_ ?_
  · rintro d' d'' rfl hs
    rw [hs.eq_of_not_creates id, show d''.table = d'.table from hs.table]
  · rintro d' answer d'' rfl - hs
    cases answer with
    | error e => rw [hs.eq_of_not_creates id, show d''.table = d'.table from hs.table]
    | ok fd =>
      obtain ⟨hfree, what, hnames, htable⟩ := hs.table
      refine ⟨hfree.closed, what, hnames, ?_⟩
      rw [hs.eq_of_not_creates id, htable]

/-- What was put on a free descriptor and copied to another is there alone, once the first is
closed. -/
theorem update_moved {ο : Type} {slots : Fd → Option ο} {fd target : Fd} {what : ο}
    (hfree : slots fd = none) (hne : fd ≠ target) :
    Function.update (Function.update (Function.update slots fd (some what)) target (some what)) fd
      none = Function.update slots target (some what) := by
  have hback : Function.update slots fd none = slots := by rw [← hfree, Function.update_eq_self]
  rw [Function.update_comm hne, Function.update_idem, Function.update_comm hne.symm, hback]

/-- A redirection that works changes the descriptor of its stream alone, and one that fails
changes nothing. -/
def Desk.Redirects (names : Names) (d : Desk) (r : Redirection) (d' : Desk) :
    Except SetupError Unit → Prop
  | .ok () => ∃ what, names r.target r.mode.flags what ∧
      d' = { d with table := Function.update d.table r.stream.fd (some what) }
  | .error _ => d' = d

/-- Between opening its target and having it on the descriptor of the stream, a redirection goes
on in a way of its own. -/
theorem ensures_opened {d : Desk} (r : Redirection) {move : Fd → Program (Except SetupError Unit)}
    (ha : ∀ d r, ¬ r.Creates → allowed d r)
    (hmove : ∀ fd what, d.table fd = none → names r.target r.mode.flags what → fd ≠ r.stream.fd →
      Ensures (Desk.Step names) allowed
        { d with table := Function.update d.table fd (some what) } (move fd) (d.Redirects names r)) :
    Ensures (Desk.Step names) allowed d
      ((retry (.openFile r.target r.mode.flags 0o666)).bind fun
        | .error e => done (.error (.redirect r.target e))
        | .ok fd => if fd = r.stream.fd then done (.ok ()) else move fd)
      (d.Redirects names r) := by
  refine Ensures.bind ((ensures_openFile r.target r.mode.flags 0o666 ha).mono ?_)
  intro d₁ opened h
  cases opened with
  | error e => exact ensures_done h
  | ok fd =>
    obtain ⟨hfree, what, hnames, rfl⟩ := h
    dsimp only
    split
    · rename_i hfd
      exact ensures_done ⟨what, hnames, by rw [hfd]⟩
    · rename_i hfd
      exact hmove fd what hfree hnames hfd

theorem ensures_apply {d : Desk} (r : Redirection) (ha : ∀ d r, ¬ r.Creates → allowed d r) :
    Ensures (Desk.Step names) allowed d r.apply (d.Redirects names r) := by
  refine ensures_opened r ha fun fd what hfree hnames hfd => ?_
  refine Ensures.bind ((ensures_duplicate _ (Function.update_self ..) ha).mono ?_)
  rintro d₂ moved ⟨rfl, rfl⟩
  refine Ensures.bind ((ensures_close fd ha).mono ?_)
  rintro d₃ - rfl
  exact ensures_done ⟨what, hnames, by rw [update_moved hfree hfd]⟩

theorem ensures_applyInStage {d : Desk} (r : Redirection)
    (ha : ∀ d r, ¬ r.Creates → allowed d r) :
    Ensures (Desk.Step names) allowed d r.applyInStage (d.Redirects names r) := by
  refine ensures_opened r ha fun fd what hfree hnames hfd => ?_
  refine Ensures.bind ((ensures_duplicate _ (Function.update_self ..) ha).mono ?_)
  rintro d₂ moved ⟨rfl, rfl⟩
  refine Ensures.bind ((ensures_close fd ha).mono ?_)
  rintro d₃ - rfl
  exact ensures_done ⟨what, hnames, by rw [update_moved hfree hfd]⟩

/-- Both descriptors of each pipe. -/
def ends (pipes : List PipeEnds) : List Fd := pipes.flatMap fun p => [p.1, p.2]

theorem ensures_closePipes {d : Desk} (pipes : List PipeEnds)
    (ha : ∀ d r, ¬ r.Creates → allowed d r) :
    Ensures (Desk.Step names) allowed d (closePipes pipes) fun d' _ =>
      d' = { d with table := d.table.without (ends pipes) } := by
  induction pipes generalizing d with
  | nil => exact ensures_done (by simp [ends])
  | cons p pipes ih =>
    refine Ensures.bind ((ensures_close p.1 ha).mono ?_)
    rintro d₁ - rfl
    refine Ensures.bind ((ensures_close p.2 ha).mono ?_)
    rintro d₂ - rfl
    refine ih.mono ?_
    rintro d₃ - rfl
    simp [ends, Table.without_cons]

end

end JobShell
