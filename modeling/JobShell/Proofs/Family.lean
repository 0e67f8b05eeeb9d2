import Mathlib.Logic.Relation
import JobShell.Proofs.TableKept
import JobShell.Proofs.Wiring

/-!
The shell together with the processes that it starts. They take their steps in any order, each
on a table of its own, which a new process gets as a copy of the one of the process that
started it, and a process may end at any moment. While the shell starts a pipeline, its `i`-th
child is the process of stage `i`, on its way from the moment when all pipes were laid.
-/
namespace JobShell

open Program

/-- A process: what it was started to do, what it has done, what it has still to do, and its
descriptors. -/
structure Running (α : Type) where
  program : Program α
  past : List Event
  rest : Program α
  table : Table

def Running.start {α : Type} (program : Program α) (table : Table) : Running α :=
  { program, past := [], rest := program, table }

/-- A process makes one exchange. -/
inductive Running.Step {α : Type} (names : Names) (n : Nat) :
    Running α → Event → Running α → Prop
  | exchange {q : Running α} {e : Event} {rest : Program α} {table : Table} :
      Steps q.rest [e] rest → q.table.Step names n e table →
      Step names n q e { q with past := q.past ++ [e], rest, table }

/-- The process that an exchange starts, with a copy of the table. -/
def Event.started (table : Table) : Event → List (Option (Running Empty))
  | .fork child (.ok _) => [some (.start child table)]
  | _ => []

/-- The shell, the processes started so far, in order, without those that have ended, and the
pipes made so far. -/
structure Family (α : Type) where
  shell : Running α
  children : List (Option (Running Empty)) := []
  pipes : List PipeEnds := []

def Family.start {α : Type} (program : Program α) (table : Table) : Family α :=
  { shell := .start program table }

inductive Family.Step {α : Type} (names : Names) : Family α → Family α → Prop
  | shell {w : Family α} {e : Event} {q : Running α} : w.shell.Step names w.pipes.length e q →
      Step names w { w with
        shell := q
        children := w.children ++ e.started q.table
        pipes := w.pipes ++ e.newPipes }
  | child {w : Family α} {i : Nat} {q q' : Running Empty} {e : Event} :
      w.children[i]? = some (some q) → q.Step names w.pipes.length e q' →
      Step names w { w with
        children := w.children.set i (some q') ++ e.started q'.table
        pipes := w.pipes ++ e.newPipes }
  | ended {w : Family α} (i : Nat) : Step names w { w with children := w.children.set i none }

/-- What may have become of a family after any number of steps. -/
def Family.Reaches {α : Type} (names : Names) : Family α → Family α → Prop :=
  Relation.ReflTransGen (Family.Step names)

theorem Family.exists_reaches {α : Type} {names : Names} {w w₁ : Family α}
    {good : Family α → Prop} (hs : Family.Step names w w₁)
    (h : ∃ w', Family.Reaches names w₁ w' ∧ good w') :
    ∃ w', Family.Reaches names w w' ∧ good w' := by
  obtain ⟨w', hreach, hgood⟩ := h
  exact ⟨w', hreach.head hs, hgood⟩

theorem started_eq_nil {e : Event} (h : ¬ e.request.Creates) (table : Table) :
    e.started table = [] := by
  cases e with
  | fork child answer => exact absurd trivial h
  | call request answer => rfl

theorem length_started (e : Event) (table : Table) : (e.started table).length = e.newForks := by
  cases e with
  | fork child answer => cases answer <;> rfl
  | call request answer => rfl

/-- A child that adds nothing to the system may go on alone. -/
theorem Family.reaches_child {α : Type} {names : Names} {w : Family α} {i : Nat}
    {q : Running Empty} {t : List Event} {rest : Program Empty} {d d' : Desk}
    (hq : w.children[i]? = some (some q)) (hs : Steps q.rest t rest)
    (hl : Leads (Desk.Step names) d t d') (hd : d.table = q.table)
    (hc : ∀ e ∈ t, ¬ e.request.Creates) :
    ∃ rest', Family.Reaches names w { w with
      children := w.children.set i (some ⟨q.program, q.past ++ t, rest', d'.table⟩) } := by
  induction hl generalizing w q with
  | nil =>
    refine ⟨q.rest, ?_⟩
    have hsame : w.children.set i (some q) = w.children := by
      obtain ⟨hi, hget⟩ := List.getElem?_eq_some_iff.mp hq
      rw [← hget, List.set_getElem_self]
    rw [hd, List.append_nil, hsame]
    exact .refl
  | @cons d d₁ d' e t hstep hl ih =>
    obtain ⟨r, hfirst, hthen⟩ := hs.cons_inv
    have hquiet : ¬ e.request.Creates := hc e List.mem_cons_self
    have hnumber : q.table.Step names w.pipes.length e d₁.table :=
      (hd ▸ hstep.table).renumber fun answer he => hquiet (he ▸ trivial)
    let q₁ : Running Empty := ⟨q.program, q.past ++ [e], r, d₁.table⟩
    let w₁ : Family α := { w with children := w.children.set i (some q₁) }
    have hone : Family.Step names w w₁ := by
      have hexchange := Family.Step.child hq (.exchange hfirst hnumber)
      rwa [started_eq_nil hquiet, newPipes_eq_nil hquiet, List.append_nil, List.append_nil]
        at hexchange
    have hthere : w₁.children[i]? = some (some q₁) :=
      List.getElem?_set_self (List.getElem?_eq_some_iff.mp hq).1
    obtain ⟨rest', hreach⟩ := ih hthere hthen rfl
      fun e' he' => hc e' (List.mem_cons_of_mem e he')
    simp only [w₁, q₁, List.set_set, List.append_assoc, List.singleton_append] at hreach
    exact ⟨rest', hreach.head hone⟩

section

variable {stage : Stage} {pipes : List PipeEnds} {group : Option Pid} {ctx : Context} {i : Nat}

/-- What a stage does once it is set up. -/
def Stage.afterSetUp (stage : Stage) (ctx : Context) : Program Empty := do
  if stage.isBuiltin then
    let (outcome, _) ← runBuiltin stage.argv ctx
    Program.exit outcome.code
  else
    stageProcess.fail (← execStage stage ctx.environment)

theorem plain_fail (e : SetupError) : Plain (stageProcess.fail e) :=
  (asks_writeText (fun _ => ⟨id, id⟩) _).bind fun _ => asks_exit _

theorem plain_afterSetUp (stage : Stage) (ctx : Context) : Plain (stage.afterSetUp ctx) := by
  unfold Stage.afterSetUp
  split
  · exact ((within_runBuiltin ctx _).plain (by decide)).bind fun _ => asks_exit _
  · exact ((within_execStage stage _).plain (by decide)).bind plain_fail

theorem Request.OfStage.not_creates {r : Request} (h : r.OfStage) : ¬ r.Creates := by
  cases r with
  | fork child => cases h
  | call request => cases request <;> first | exact id | cases h

/-- A stage neither starts processes nor makes pipes. -/
theorem asks_stageProcess :
    Asks (fun r => ¬ r.Creates) (stageProcess i stage pipes group ctx) := by
  obtain ⟨next, heq, hnext⟩ := stageProcess_eq i stage pipes group ctx
  have hjoin : Asks (fun r => ¬ r.Creates) (ask (.setGroup 0 (group.getD 0))) := asks_ask.mpr id
  rw [heq]
  exact hjoin.bind fun answer => (hnext answer).mono fun _ => Request.OfStage.not_creates

/-- What a stage does after it was set up is plain. -/
theorem plain_of_setUp {t u : List Event} {rest : Program Empty}
    (h : Runs (setUpStage i stage pipes group) t (.ok ()))
    (hs : Steps (stageProcess i stage pipes group ctx) (t ++ u) rest) :
    ∀ e ∈ u, e.request.IsPlain := by
  obtain rfl | hafter := h.steps_bind hs
  · simp
  · exact (plain_afterSetUp stage ctx).events hafter

end

/-- The child with number `i` runs the stage with this number. It was started with all pipes
laid, and its descriptors follow from what it has done since. -/
structure RunsStage (names : Names) (p : Pipeline) (ctx : Context) (T : Table)
    (pipes : List PipeEnds) (i : Nat) (q : Running Empty) : Prop where
  count : pipes.length + 1 = p.stages.length
  program : ∃ stage group, p.stages[i]? = some stage ∧
    q.program = stageProcess i stage pipes group ctx
  run : Steps q.program q.past q.rest
  desk : ∃ d d', Laid T 0 pipes d.table ∧ Leads (Desk.Step names) d q.past d' ∧
    d'.table = q.table

/-- The shell is on its way through starting the pipeline, and its children are the stages that
it has started. -/
structure Launching (names : Names) (p : Pipeline) (ctx : Context) (T : Table)
    (w : Family (Except ShellError Started × Pipeline × Context)) : Prop where
  run : Steps (startPipeline p ctx) w.shell.past w.shell.rest
  desk : Leads (Desk.Step names) { table := T } w.shell.past
    ⟨w.shell.table, w.pipes, w.children.length⟩
  children : ∀ i q, w.children[i]? = some (some q) → RunsStage names p ctx T w.pipes i q

section

variable {names : Names} {p : Pipeline} {ctx : Context} {T : Table}
  {w w' : Family (Except ShellError Started × Pipeline × Context)}

theorem launching_start : Launching names p ctx T (.start (startPipeline p ctx) T) :=
  ⟨.refl _, .nil, by simp [Family.start]⟩

theorem RunsStage.not_creates {pipes : List PipeEnds} {i : Nat} {q q' : Running Empty}
    {e : Event} {n : Nat} (h : RunsStage names p ctx T pipes i q) (hs : q.Step names n e q') :
    ¬ e.request.Creates := by
  obtain ⟨stage, group, -, hprogram⟩ := h.program
  cases hs with
  | exchange hstep _ =>
    have hrun := h.run.trans hstep
    rw [hprogram] at hrun
    exact asks_stageProcess.events hrun e (by simp)

theorem RunsStage.step {pipes : List PipeEnds} {i : Nat} {q q' : Running Empty} {e : Event}
    {n : Nat} (h : RunsStage names p ctx T pipes i q) (hs : q.Step names n e q') :
    RunsStage names p ctx T pipes i q' := by
  have hquiet := h.not_creates hs
  obtain ⟨d, d', hlaid, hl, htable⟩ := h.desk
  cases hs with
  | @exchange rest table hstep htable' =>
    have hnumber : d'.table.Step names d'.pipes.length e table := by
      rw [htable]
      exact htable'.renumber fun answer he => hquiet (he ▸ trivial)
    have hnext : Leads (Desk.Step names) d (q.past ++ [e]) _ :=
      leads_append.mpr ⟨d', hl, .cons (.of_table hnumber) .nil⟩
    exact ⟨h.count, h.program, h.run.trans hstep, d, _, hlaid, hnext, rfl⟩

/-- What the shell asks for next is what starting the pipeline may ask for there. -/
theorem Launching.allowed {q : Running (Except ShellError Started × Pipeline × Context)}
    {e : Event} {n : Nat} (h : Launching names p ctx T w) (hs : w.shell.Step names n e q) :
    Launches p ctx { table := T } ⟨w.shell.table, w.pipes, w.children.length⟩ e.request := by
  cases hs with
  | exchange hstep _ =>
    obtain ⟨p', hp', hr⟩ := hstep.request?
    have hrun := h.run.trans hp'
    rw [List.append_nil] at hrun
    exact (ensures_startPipeline_table p ctx _ _ _ hrun h.desk).1 _ hr

/-- A new child runs the stage that is next. -/
theorem RunsStage.of_launches {pipes : List PipeEnds} {U : Table} {n : Nat}
    {child : Program Empty} (h : Launches p ctx { table := T } ⟨U, pipes, n⟩ (.fork child)) :
    RunsStage names p ctx T pipes n (.start child U) := by
  obtain ⟨i, stage, pipes', group, hi, hstage, hcount, hwith, rfl⟩ := h
  obtain rfl : pipes = pipes' := by simpa using hwith.pipes
  obtain rfl : n = i := by simpa using hi
  exact ⟨hcount, ⟨stage, group, hstage, rfl⟩, .refl _, _, _, hwith.laid, .nil, rfl⟩

/-- No pipe is made any more once there is a child. -/
theorem newPipes_of_launches {d₀ d : Desk} {e : Event} (h : Launches p ctx d₀ d e.request)
    (hlt : d₀.forks < d.forks) : e.newPipes = [] := by
  cases e with
  | fork child answer => rfl
  | call request answer =>
    cases request <;> first | exact absurd h (Nat.ne_of_gt hlt) | rfl

theorem mem_started {e : Event} {table : Table} {q : Running Empty} {k : Nat}
    (h : (e.started table)[k]? = some (some q)) :
    k = 0 ∧ ∃ child, e.request = .fork child ∧ q = .start child table := by
  cases e with
  | call request answer => simp [Event.started] at h
  | fork child answer =>
    cases answer with
    | error e => simp [Event.started] at h
    | ok pid =>
      cases k with
      | zero => exact ⟨rfl, child, rfl, by simpa [Event.started] using h.symm⟩
      | succ k => simp [Event.started] at h

theorem Launching.shell {q : Running (Except ShellError Started × Pipeline × Context)}
    {e : Event} (h : Launching names p ctx T w) (hs : w.shell.Step names w.pipes.length e q) :
    Launching names p ctx T { w with
      shell := q
      children := w.children ++ e.started q.table
      pipes := w.pipes ++ e.newPipes } := by
  have hallowed := h.allowed hs
  have hrun : Steps (startPipeline p ctx) q.past q.rest ∧
      Leads (Desk.Step names) { table := T } q.past
        ⟨q.table, w.pipes ++ e.newPipes, w.children.length + e.newForks⟩ := by
    cases hs with
    | exchange hstep htable =>
      exact ⟨h.run.trans hstep, leads_append.mpr ⟨_, h.desk, .cons (.of_table htable) .nil⟩⟩
  refine ⟨hrun.1, ?_, ?_⟩
  · rw [← length_started e q.table, ← List.length_append] at hrun
    exact hrun.2
  · intro i q' hq'
    by_cases hi : i < w.children.length
    · have hnone : e.newPipes = [] := newPipes_of_launches hallowed (Nat.zero_lt_of_lt hi)
      rw [List.getElem?_append_left hi] at hq'
      simp only [hnone, List.append_nil]
      exact h.children i q' hq'
    · rw [List.getElem?_append_right (Nat.le_of_not_lt hi)] at hq'
      obtain ⟨hzero, child, hrequest, rfl⟩ := mem_started hq'
      obtain rfl : i = w.children.length := by omega
      cases e with
      | call request answer => cases hrequest
      | fork child answer =>
        cases hrequest
        have htable : q.table = w.shell.table := by
          cases hs with
          | exchange _ htable => exact htable
        rw [htable, show (Event.fork child answer).newPipes = [] from rfl, List.append_nil]
        exact .of_launches hallowed

/-- Any child may go on with its stage, or end. -/
theorem Launching.set_child {i : Nat} {now : Option (Running Empty)}
    (h : Launching names p ctx T w) (hnow : ∀ q ∈ now, RunsStage names p ctx T w.pipes i q) :
    Launching names p ctx T { w with children := w.children.set i now } := by
  refine ⟨h.run, by simpa using h.desk, ?_⟩
  intro j q hq
  rw [List.getElem?_set] at hq
  split at hq
  · rename_i hij
    subst hij
    split at hq
    · exact hnow q (Option.some.inj hq)
    · cases hq
  · exact h.children j q hq

theorem Launching.child {i : Nat} {q q' : Running Empty} {e : Event}
    (h : Launching names p ctx T w) (hq : w.children[i]? = some (some q))
    (hs : q.Step names w.pipes.length e q') :
    Launching names p ctx T { w with
      children := w.children.set i (some q') ++ e.started q'.table
      pipes := w.pipes ++ e.newPipes } := by
  have hstage := h.children i q hq
  have hquiet := hstage.not_creates hs
  rw [started_eq_nil hquiet, newPipes_eq_nil hquiet, List.append_nil, List.append_nil]
  refine h.set_child fun r hr => ?_
  obtain rfl : q' = r := Option.some.inj hr
  exact hstage.step hs

theorem Launching.step (h : Launching names p ctx T w) (hs : Family.Step names w w') :
    Launching names p ctx T w' := by
  cases hs with
  | shell hstep => exact h.shell hstep
  | child hq hstep => exact h.child hq hstep
  | ended i => exact h.set_child nofun

/-- However the steps of the shell and its children follow on each other. -/
theorem launching_of_reaches
    (h : Family.Reaches names (.start (startPipeline p ctx) T) w) : Launching names p ctx T w := by
  induction h with
  | refl => exact launching_start
  | tail _ hstep ih => exact ih.step hstep

end

end JobShell
