import JobShell.Proofs.Descriptors

/-!
The shell's own descriptors while it starts processes. The pipes are laid on descriptors that
were closed; with all of them laid every stage gets its process, one after another, and then
they are taken off. If some pipe cannot be made, those before it are taken off at once.
-/
namespace JobShell

open Program

/-- The table `U` is `T` with pipes laid on it, the first of which has the number `n`. -/
structure Laid (T : Table) (n : Nat) (pipes : List PipeEnds) (U : Table) : Prop where
  free : ∀ fd ∈ ends pipes, T fd = none
  reading : ∀ i p, pipes[i]? = some p → U p.1 = some (.readEnd (n + i))
  writing : ∀ i p, pipes[i]? = some p → U p.2 = some (.writeEnd (n + i))
  same : ∀ fd, fd ∉ ends pipes → U fd = T fd

theorem mem_ends {fd : Fd} {pipes : List PipeEnds} :
    fd ∈ ends pipes ↔ ∃ (i : Nat) (p : PipeEnds), pipes[i]? = some p ∧ (fd = p.1 ∨ fd = p.2) := by
  simp only [ends, List.mem_flatMap, List.mem_cons, List.not_mem_nil, or_false]
  constructor
  · rintro ⟨p, hp, h⟩
    obtain ⟨i, hi⟩ := List.mem_iff_getElem?.mp hp
    exact ⟨i, p, hi, h⟩
  · rintro ⟨i, p, hi, h⟩
    exact ⟨p, List.mem_of_getElem? hi, h⟩

section

variable {T U : Table} {n : Nat} {pipes : List PipeEnds}

theorem laid_nil (T : Table) (n : Nat) : Laid T n [] T :=
  ⟨by simp [ends], by simp, by simp, fun _ _ => rfl⟩

theorem Laid.ne_none (h : Laid T n pipes U) {fd : Fd} (hfd : fd ∈ ends pipes) : U fd ≠ none := by
  obtain ⟨i, p, hi, rfl | rfl⟩ := mem_ends.mp hfd
  · simp [h.reading i p hi]
  · simp [h.writing i p hi]

theorem Laid.closed (h : Laid T n pipes U) {fd : Fd} (hfd : U fd = none) :
    fd ∉ ends pipes ∧ T fd = none := by
  have hmem : fd ∉ ends pipes := fun hmem => h.ne_none hmem hfd
  exact ⟨hmem, by rw [← h.same fd hmem, hfd]⟩

/-- Taking the pipes off gives the table back. -/
theorem Laid.without (h : Laid T n pipes U) : U.without (ends pipes) = T := by
  funext fd
  by_cases hfd : fd ∈ ends pipes
  · simp [Table.without, hfd, h.free fd hfd]
  · simp [Table.without, hfd, h.same fd hfd]

/-- One more pipe is laid on closed descriptors. -/
theorem Laid.concat (h : Laid T n pipes U) {reading writing : Fd} (hr : U reading = none)
    (hw : Function.update U reading (some (.readEnd (n + pipes.length))) writing = none) :
    Laid T n (pipes ++ [(reading, writing)])
      (Function.update (Function.update U reading (some (.readEnd (n + pipes.length)))) writing
        (some (.writeEnd (n + pipes.length)))) := by
  have hne : writing ≠ reading := by
    rintro rfl
    simp at hw
  rw [Function.update_of_ne hne] at hw
  obtain ⟨hrmem, hrT⟩ := h.closed hr
  obtain ⟨hwmem, hwT⟩ := h.closed hw
  have hold {fd : Fd} (hfd : fd ∈ ends pipes) : fd ≠ reading ∧ fd ≠ writing :=
    ⟨fun heq => hrmem (heq ▸ hfd), fun heq => hwmem (heq ▸ hfd)⟩
  have hends : ends (pipes ++ [(reading, writing)]) = ends pipes ++ [reading, writing] := by
    simp [ends]
  have hcases {i : Nat} {p : PipeEnds} (hi : (pipes ++ [(reading, writing)])[i]? = some p) :
      pipes[i]? = some p ∨ i = pipes.length ∧ p = (reading, writing) := by
    rcases Nat.lt_trichotomy i pipes.length with hlt | rfl | hgt
    · rw [List.getElem?_append_left hlt] at hi
      exact .inl hi
    · simp only [List.getElem?_concat_length, Option.some.injEq] at hi
      exact .inr ⟨rfl, hi.symm⟩
    · rw [List.getElem?_eq_none (by simp; omega)] at hi
      cases hi
  refine ⟨?_, ?_, ?_, ?_⟩
  · intro fd hfd
    rw [hends] at hfd
    simp only [List.mem_append, List.mem_cons, List.not_mem_nil, or_false] at hfd
    rcases hfd with hfd | rfl | rfl
    · exact h.free fd hfd
    · exact hrT
    · exact hwT
  · intro i p hi
    obtain hi | ⟨rfl, rfl⟩ := hcases hi
    · obtain ⟨h₁, h₂⟩ := hold (mem_ends.mpr ⟨i, p, hi, .inl rfl⟩)
      rw [Function.update_of_ne h₂, Function.update_of_ne h₁, h.reading i p hi]
    · rw [Function.update_of_ne hne.symm, Function.update_self]
  · intro i p hi
    obtain hi | ⟨rfl, rfl⟩ := hcases hi
    · obtain ⟨h₁, h₂⟩ := hold (mem_ends.mpr ⟨i, p, hi, .inr rfl⟩)
      rw [Function.update_of_ne h₂, Function.update_of_ne h₁, h.writing i p hi]
    · rw [Function.update_self]
  · intro fd hfd
    rw [hends] at hfd
    simp only [List.mem_append, List.mem_cons, List.not_mem_nil, or_false, not_or] at hfd
    rw [Function.update_of_ne hfd.2.2, Function.update_of_ne hfd.2.1, h.same fd hfd.1]

end

/-- Since `d₀` these pipes have been made, and they are all laid. -/
structure Desk.WithPipes (d₀ : Desk) (pipes : List PipeEnds) (d : Desk) : Prop where
  laid : Laid d₀.table d₀.pipes.length pipes d.table
  pipes : d.pipes = d₀.pipes ++ pipes

/-- What starting a pipeline asks for, from `d₀` on: pipes before any process, and with one pipe
less than there are stages laid a process for each stage, in their order. -/
def Launches (p : Pipeline) (ctx : Context) (d₀ d : Desk) : Request → Prop
  | .call .pipe => d.forks = d₀.forks
  | .fork child => ∃ i stage pipes group, d.forks = d₀.forks + i ∧ p.stages[i]? = some stage ∧
      pipes.length + 1 = p.stages.length ∧ d₀.WithPipes pipes d ∧
      child = stageProcess i stage pipes group ctx
  | _ => True

theorem launches_other {p : Pipeline} {ctx : Context} {d₀ : Desk} (d : Desk) (r : Request)
    (h : ¬ r.Creates) : Launches p ctx d₀ d r := by
  cases r with
  | fork child => exact absurd trivial h
  | call request => cases request <;> first | exact absurd trivial h | trivial

section

variable {names : Names} {p : Pipeline} {ctx : Context} {d₀ d d' : Desk} {e : Errno}

/-- What making pipes comes to: they all get laid, or the table is as it was. -/
def Desk.PipesMade (d₀ d : Desk) (count : Nat) : Except Errno (List PipeEnds) → Prop
  | .ok pipes => d₀.WithPipes pipes d ∧ pipes.length = count
  | .error _ => d.table = d₀.table

theorem Desk.Step.eq_of_noPipe (h : d.Step names (.call .pipe (.error e)) d') : d' = d := by
  obtain ⟨table, pipes, forks⟩ := d'
  obtain ⟨htable, hpipes, hforks⟩ := h
  simp only [Event.newPipes, List.append_nil, Event.newForks, Nat.add_zero] at hpipes hforks
  rw [show table = d.table from htable, hpipes, hforks]

theorem Desk.WithPipes.concat {made : List PipeEnds} {newest : PipeEnds}
    (h : d₀.WithPipes made d) (hs : d.Step names (.call .pipe (.ok newest)) d') :
    d₀.WithPipes (made ++ [newest]) d' ∧ d'.forks = d.forks := by
  obtain ⟨reading, writing⟩ := newest
  obtain ⟨⟨U, rfl, hr, hw, htable⟩, hpipes, hforks⟩ := hs
  have hlength : d.pipes.length = d₀.pipes.length + made.length := by
    rw [h.pipes, List.length_append]
  rw [hlength] at hw htable
  refine ⟨⟨?_, ?_⟩, hforks⟩
  · rw [htable]
    exact h.laid.concat hr.closed hw.closed
  · rw [hpipes, h.pipes, List.append_assoc]
    rfl

theorem ensures_openPipes {made : List PipeEnds} {count : Nat} (h : d₀.WithPipes made d)
    (hf : d.forks = d₀.forks) :
    Ensures (Desk.Step names) (Launches p ctx d₀) d (openPipes made count) fun d' opened =>
      d'.forks = d₀.forks ∧ d₀.PipesMade d' (made.length + count) opened := by
  induction count generalizing made d with
  | zero => exact ensures_done ⟨hf, h, rfl⟩
  | succ count ih =>
    have hpipe : Ensures (Desk.Step names) (Launches p ctx d₀) d (retry .pipe) fun d' opened =>
        d'.forks = d₀.forks ∧ d₀.WithPipes (made ++ opened.toOption.toList) d' := by
      refine ensures_retry (· = d) rfl (fun _ hd => by rw [hd]; exact hf) ?_ ?_
      · rintro d' d'' rfl hs
        exact hs.eq_of_noPipe
      · rintro d' answer d'' rfl - hs
        cases answer with
        | error e =>
          obtain rfl := hs.eq_of_noPipe
          exact ⟨hf, by simpa [Except.toOption] using h⟩
        | ok newest =>
          obtain ⟨hlaid, hforks⟩ := h.concat hs
          exact ⟨hforks.trans hf, hlaid⟩
    refine Ensures.bind (hpipe.mono ?_)
    rintro d₁ opened ⟨hf₁, h₁⟩
    cases opened with
    | ok newest =>
      refine (ih h₁ hf₁).mono ?_
      rintro d₂ opened ⟨hf₂, h₂⟩
      have hlength : (made ++ [newest]).length + count = made.length + (count + 1) := by
        rw [List.length_append, List.length_singleton]
        omega
      exact ⟨hf₂, hlength ▸ h₂⟩
    | error e =>
      have hlaid : d₀.WithPipes made d₁ := by simpa [Except.toOption] using h₁
      refine Ensures.bind ((ensures_closePipes made launches_other).mono ?_)
      rintro d₂ - rfl
      exact ensures_done ⟨hf₁, hlaid.laid.without⟩

/-- Every stage that gets its process gets it while the pipes are laid. -/
theorem ensures_startStages_laid {pipes : List PipeEnds} {index : Nat} {group : Option Pid}
    {stages : List Stage} (h : d₀.WithPipes pipes d) (hf : d.forks = d₀.forks + index)
    (hstages : stages = p.stages.drop index) (hlength : pipes.length = p.stages.length - 1) :
    Ensures (Desk.Step names) (Launches p ctx d₀) d (startStages pipes ctx index group stages)
      fun d' r => d' = { d with forks := d'.forks } ∧
        (r.1 = .ok () → d'.forks = d.forks + stages.length) := by
  induction stages generalizing d index group with
  | nil => exact ensures_done ⟨rfl, fun _ => rfl⟩
  | cons stage stages ih =>
    have hstage : p.stages[index]? = some stage := by
      rw [← List.head?_drop, ← hstages]
      rfl
    have hlt : index < p.stages.length := (List.getElem?_eq_some_iff.mp hstage).1
    have hstart : Ensures (Desk.Step names) (Launches p ctx d₀) d
        (start (stageProcess index stage pipes group ctx)) fun d' answer =>
          d' = { d with forks := d.forks +
            (Event.fork (stageProcess index stage pipes group ctx) answer).newForks } := by
      refine ensures_start ⟨index, stage, pipes, group, hf, hstage, by omega, h, rfl⟩ ?_
      intro answer d' hs
      exact hs.eq_of_fork
    refine Ensures.bind (hstart.mono ?_)
    intro d₁ answer h₁
    cases answer with
    | error e =>
      obtain rfl : d₁ = d := h₁
      exact ensures_done ⟨rfl, by simp⟩
    | ok child =>
      obtain rfl : d₁ = { d with forks := d.forks + 1 } := h₁
      have hplain : Plain (ask (.setGroup child (group.getD child))) := asks_ask.mpr ⟨id, id⟩
      refine Ensures.bind ((hplain.ensures launches_other).mono ?_)
      rintro d₂ - rfl
      have hforks : d.forks + 1 = d₀.forks + (index + 1) := by omega
      have hrest : stages = p.stages.drop (index + 1) := by
        rw [← List.drop_drop, ← hstages, List.drop_one, List.tail_cons]
      have hlaid : d₀.WithPipes pipes { d with forks := d.forks + 1 } := ⟨h.laid, h.pipes⟩
      refine Ensures.bind ((ih hlaid hforks hrest).mono ?_)
      · rintro d₃ ⟨result, group', rest⟩ ⟨hd, hok⟩
        refine ensures_done ⟨hd, fun hresult => ?_⟩
        rw [hok hresult, List.length_cons]
        dsimp only
        omega

/-- Starting processes gives the table back, whether it works or not. -/
theorem ensures_startProcesses_table :
    Ensures (Desk.Step names) (Launches p ctx d) d (startProcesses p ctx) fun d' r =>
      d'.table = d.table ∧ ∀ pgid, r.1 = .ok (.group pgid) →
        d'.forks = d.forks + p.stages.length := by
  unfold startProcesses
  split
  · exact ensures_done ⟨rfl, by simp⟩
  · have hnone : d.WithPipes [] d := ⟨laid_nil _ _, by simp⟩
    refine Ensures.bind ((ensures_openPipes hnone rfl).mono ?_)
    rintro d₁ opened ⟨hf, h⟩
    cases opened with
    | error e => exact ensures_done ⟨h, by simp⟩
    | ok pipes =>
      obtain ⟨h, hlength⟩ := h
      have hlength' : pipes.length = p.stages.length - 1 := by simpa using hlength
      have hf' : d₁.forks = d.forks + 0 := hf
      refine Ensures.bind ((ensures_startStages_laid h hf' rfl hlength').mono ?_)
      rintro d₂ ⟨result, group, stages⟩ ⟨hd, hok⟩
      refine Ensures.bind ((ensures_closePipes pipes launches_other).mono ?_)
      rintro d₃ - rfl
      have htable : d₂.table = d₁.table := by rw [hd]
      have hback : d₂.table.without (ends pipes) = d.table := by
        rw [htable]
        exact h.laid.without
      dsimp only
      split
      · exact ensures_done ⟨hback, by simp⟩
      · refine ensures_done ⟨hback, fun _ _ => ?_⟩
        rw [← hf]
        exact hok rfl
      · exact ensures_done ⟨hback, by simp⟩

end

end JobShell
