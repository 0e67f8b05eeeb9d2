import JobShell.Proofs.Line
import JobShell.Proofs.Requests

/-!
The group that interrupts are passed on to. There is one only while the shell waits for a
foreground pipeline that the terminal was denied to, and it is the group of that pipeline. The
cases follow the parts of an evaluation, from the inside out.
-/
namespace JobShell

open Program

/-- The group that interrupts are passed on to behind an event, `relay` being the one before.
The shell itself interrupts no other. -/
def Relays (relay : Option Pid) : Event → Option Pid → Prop
  | .call (.relayTo group) _, relay' => relay' = group
  | .call (.kill target _) _, relay' => relay' = relay ∧ relay.map Target.group = some target
  | _, relay' => relay' = relay

theorem relays_of_topic {e : Event} (relay : Option Pid) (h : e.request.topic ≠ .interrupts) :
    Relays relay e relay := by
  unfold Relays
  split
  · exact absurd rfl h
  · exact absurd rfl h
  · rfl

/-- Interrupts are passed on no longer. -/
def clearing : Event := .call (.relayTo none) ()

theorem relays_inquiry (relay : Option Pid) (arrived : Bool) :
    Relays relay (inquiry arrived) relay := rfl

theorem Within.relays {α : Type} {topics : List Topic} {p q : Program α} {t : List Event}
    (h : Within topics p) (ht : .interrupts ∉ topics) (hs : Steps p t q) (relay : Option Pid) :
    Leads Relays relay t relay :=
  leads_of_same fun e he => relays_of_topic relay fun htopic => ht (htopic ▸ h.events hs e he)

/-- Behind the exchanges `t`, where `q` is left of a program, there is no group that interrupts are
passed on to, or there is one that the program `waits` for. In the end there is none. -/
def RelaysOnly {α : Type} (waits : List Event → Pid → Prop) (t : List Event) (q : Program α) :
    Prop :=
  Leads Relays none t none ∨
    ∃ pgid, Leads Relays none t (some pgid) ∧ (∀ a, q ≠ done a) ∧ waits t pgid

section

variable {α β : Type} {waits waits' : List Event → Pid → Prop} {t u : List Event} {q : Program α}

theorem RelaysOnly.ended {a : α} (h : RelaysOnly waits t (done a)) : Leads Relays none t none := by
  obtain hl | ⟨_, -, hne, -⟩ := h
  · exact hl
  · exact absurd rfl (hne a)

theorem RelaysOnly.mono (h : RelaysOnly waits t q)
    (hw : ∀ pgid, waits t pgid → waits' t pgid) : RelaysOnly waits' t q := by
  obtain hl | ⟨pgid, hl, hne, hwaits⟩ := h
  · exact .inl hl
  · exact .inr ⟨pgid, hl, hne, hw pgid hwaits⟩

theorem RelaysOnly.behind (h : RelaysOnly (fun u => waits (t ++ u)) u q)
    (ht : Leads Relays none t none) : RelaysOnly waits (t ++ u) q := by
  obtain hl | ⟨pgid, hl, hne, hwaits⟩ := h
  · exact .inl (leads_append.mpr ⟨none, ht, hl⟩)
  · exact .inr ⟨pgid, leads_append.mpr ⟨none, ht, hl⟩, hne, hwaits⟩

theorem Within.relaysOnly {topics : List Topic} {p : Program α} (h : Within topics p)
    (ht : .interrupts ∉ topics) (hs : Steps p t q) : RelaysOnly waits t q :=
  .inl (h.relays ht hs none)

/-- What holds of the first part of a program and of what follows it holds of the program. -/
theorem relaysOnly_bind {p : Program α} {f : α → Program β} {r : Program β}
    (h : Steps (p.bind f) t r) (hp : ∀ t q, Steps p t q → RelaysOnly waits t q)
    (hf : ∀ t u a, Runs p t a → Steps (f a) u r → RelaysOnly (fun u => waits (t ++ u)) u r) :
    RelaysOnly waits t r := by
  obtain ⟨q, hq, rfl⟩ | ⟨t₁, t₂, a, rfl, hrun, hs⟩ := steps_bind.mp h
  · obtain hl | ⟨pgid, hl, hne, hwaits⟩ := hp t q hq
    · exact .inl hl
    · refine .inr ⟨pgid, hl, fun b hb => ?_, hwaits⟩
      obtain ⟨a, ha, -⟩ := bind_eq_done hb
      exact hne a ha
  · exact (hf t₁ t₂ a hrun hs).behind (hp t₁ _ hrun).ended

end

/-- Passes interrupts on to the group of a pipeline and waits for its stages. -/
def relayAndWait (p : Pipeline) (pgid : Pid) : Program Waited :=
  (relayInterruptsTo (some pgid)).bind fun _ => waitStages p

/-- What is left of waiting in the foreground when the stages have been waited for and the
terminal has been taken back. -/
def settle (p : Pipeline) (pgid : Pid) (waited : Waited) (ctx : Context) :
    Program (Bool × Pipeline × Context) := do
  let status := waited.status.getD statusFailure
  let p := { p with status := some status }
  let ctx := { ctx with lastStatus := status }
  let ctx ← if waited.stopped.isEmpty then pure ctx else suspend p pgid waited.stopped ctx
  return (waited.interrupted, p, ctx)

theorem runForeground_eq (p : Pipeline) (pgid : Pid) (ctx : Context) :
    runForeground p pgid ctx = (ctx.terminal.setForeground (some pgid)).bind fun lent =>
      match lent.1 with
      | .ok () => (waitStages p).bind fun waited => (lent.2.setForeground none).bind fun back =>
          settle p pgid waited { ctx with terminal := back.2 }
      | .error _ => (relayAndWait p pgid).bind fun waited => (relayInterruptsTo none).bind fun _ =>
          settle p pgid waited { ctx with terminal := lent.2 } := by
  simp only [runForeground, lend, bind_eq, pure_eq, Program.bind_assoc]
  congr 1
  funext lent
  obtain ⟨result, terminal⟩ := lent
  cases result with
  | ok value => simp only [takeBack, settle, bind_eq, pure_eq, done_bind, bind_assoc, ↓reduceIte]
  | error e =>
    simp only [takeBack, settle, relayAndWait, bind_eq, pure_eq, done_bind, bind_assoc,
      Bool.false_eq_true, ↓reduceIte]

theorem within_settle (p : Pipeline) (pgid : Pid) (waited : Waited) (ctx : Context) :
    Within [.output] (settle p pgid waited ctx) := by
  unfold settle
  dsimp only
  split
  · exact Within.bind (within_done _) fun _ => within_done _
  · exact Within.bind (within_suspend _ _ pgid _) fun _ => within_done _

section

variable {p p' : Pipeline} {pgid : Pid} {ctx ctx' : Context} {t : List Event}

theorem steps_relay {q : Program Unit} (relay : Option Pid)
    (h : Steps (relayInterruptsTo (some pgid)) t q) :
    t = [] ∨ Leads Relays relay t (some pgid) := by
  simp only [relayInterruptsTo, bind_eq, pure_eq] at h
  cases h with
  | refl _ => exact .inl rfl
  | call answer h =>
    refine .inr (.cons rfl ?_)
    cases h with
    | refl _ => exact .nil
    | call arrived h =>
      refine .cons (relays_inquiry _ arrived) ?_
      cases arrived with
      | false =>
        cases h
        exact .nil
      | true =>
        cases h with
        | refl _ => exact .nil
        | call answer h =>
          cases h
          exact .cons ⟨rfl, rfl⟩ .nil

/-- The group is set before the shell asks whether an interrupt has already arrived. -/
theorem runs_relay (h : Runs (relayInterruptsTo (some pgid)) t ()) :
    ∃ arrived u, t = .call (.relayTo (some pgid)) () :: inquiry arrived :: u ∧
      (arrived = true → ∃ answer, u = [.call (.kill (.group pgid) Signal.sigint) answer]) := by
  simp only [relayInterruptsTo, bind_eq, pure_eq, runs_bind, runs_ask] at h
  obtain ⟨_, _, _, rfl, rfl, _, u, arrived, rfl, rfl, h⟩ := h
  refine ⟨arrived, u, rfl, ?_⟩
  rintro rfl
  simp only [↓reduceIte, runs_bind, runs_ask] at h
  obtain ⟨_, _, answer, rfl, rfl, h⟩ := h
  obtain ⟨rfl, -⟩ := runs_done.mp h
  exact ⟨answer, rfl⟩

theorem steps_relayAndWait {q : Program Waited} (relay : Option Pid)
    (h : Steps (relayAndWait p pgid) t q) :
    t = [] ∨ Leads Relays relay t (some pgid) := by
  obtain ⟨r, hr, -⟩ | ⟨t₁, t₂, value, rfl, hr, hw⟩ := steps_bind.mp h
  · exact steps_relay relay hr
  · obtain rfl | hr' := steps_relay relay hr
    · cases hr
    · exact .inr (leads_append.mpr ⟨_, hr', (within_waitStages p).relays (by decide) hw _⟩)

/-- As long as the shell waits the group stays set. -/
theorem clearing_not_mem {r : Program Waited} (h : Steps (relayAndWait p pgid) t r) :
    clearing ∉ t := by
  intro hmem
  obtain ⟨t₁, t₂, rfl⟩ := List.append_of_mem hmem
  rw [← List.singleton_append, ← List.append_assoc] at h
  obtain ⟨q, hq, -⟩ := h.split
  obtain hnil | hl := steps_relayAndWait none hq
  · simp at hnil
  · obtain ⟨relay, -, hlast⟩ := leads_append.mp hl
    obtain ⟨relay', hclear, hend⟩ := leads_cons.mp hlast
    -- the group would be cleared and yet be set
    have hset : relay' = some pgid := (leads_nil.mp hend).symm
    exact Option.some_ne_none pgid (hset.symm.trans hclear)

/-- Passing interrupts on stops behind the wait, and what is left then passes none on. -/
theorem relaysOnly_stop {α : Type} {rest : Waited → Program α} {q : Program α}
    (hrest : ∀ waited, Within [.output] (rest waited))
    (h : Steps ((relayAndWait p pgid).bind fun waited => (relayInterruptsTo none).bind fun _ =>
      rest waited) t q) :
    RelaysOnly (fun t g => g = pgid ∧ ∃ r, Steps (relayAndWait p pgid) t r) t q := by
  obtain ⟨r, hr, rfl⟩ | ⟨t₁, t₂, waited, rfl, hr, hs⟩ := steps_bind.mp h
  · obtain rfl | hrelays := steps_relayAndWait none hr
    · exact .inl .nil
    · refine .inr ⟨pgid, hrelays, fun a ha => ?_, rfl, r, hr⟩
      obtain ⟨waited, rfl, ha⟩ := bind_eq_done ha
      cases ha
  · obtain rfl | hrelays := steps_relayAndWait none hr
    · cases hr
    · cases hs with
      | refl _ =>
        rw [List.append_nil]
        exact .inr ⟨pgid, hrelays, by rintro a ⟨⟩, rfl, _, hr⟩
      | call answer hs =>
        have hstop := (hrest waited).relays (by decide) hs none
        exact .inl (leads_append.mpr ⟨_, hrelays, .cons rfl hstop⟩)

/-- The pipeline has been started in the foreground as the group `pgid`, and the terminal has
been denied to that group. -/
inductive Denied (p : Pipeline) (ctx : Context) : List Event → Pipeline → Pid → Prop
  | intro {u v : List Event} {p' : Pipeline} {pgid : Pid} {ctx' : Context} {e : ShellError}
      {terminal : Terminal} : p.isBackground = false →
      Runs (startPipeline p ctx) u (.ok (.group pgid), p', ctx') →
      Runs (ctx'.terminal.setForeground (some pgid)) v (.error e, terminal) →
      Denied p ctx (u ++ v) p' pgid

theorem Denied.topic {e : Event} (h : Denied p ctx t p' pgid) (he : e ∈ t) :
    e.request.topic ≠ .recording := by
  cases h with
  | intro _ hstart hset =>
    intro htopic
    obtain he | he := List.mem_append.mp he
    · have hwithin := (within_startPipeline ctx p).events hstart e he
      rw [htopic] at hwithin
      simp at hwithin
    · have hwithin := (within_setForeground _ (some pgid)).events hset e he
      rw [htopic] at hwithin
      simp at hwithin

/-- A group that has been denied the terminal has been founded by a process. -/
theorem Denied.founded (h : Denied p ctx t p' pgid) : ∃ child, .fork child (.ok pgid) ∈ t := by
  cases h with
  | intro _ hstart _ =>
    obtain ⟨_, result, -, -, hr, -⟩ | ⟨hs, -⟩ := runs_startPipeline hstart
    · cases result <;> simp [Except.map] at hr
    · obtain ⟨-, child, hfork⟩ := founded_of_group hs
      exact ⟨child, List.mem_append_left _ hfork⟩

/-- Once it has been denied the terminal the shell passes interrupts on to it and waits. -/
theorem Denied.steps (h : Denied p ctx t p' pgid) : ∃ rest : Waited → Program (Verdict × Context),
    Steps (runReached p ctx) t ((relayAndWait p' pgid).bind fun waited =>
      (relayInterruptsTo none).bind fun _ => rest waited) := by
  cases h with
  | @intro u v _ _ ctx' e terminal hback hstart hset =>
    have hback' : ¬ p'.isBackground = true := by
      rw [startPipeline_isBackground hstart, hback]
      exact Bool.false_ne_true
    let verdict (ended : Bool × Pipeline × Context) : Program (Verdict × Context) :=
      done (if ended.1 then .abandon else .next, ended.2.2)
    have hwait : Steps (runForeground p' pgid ctx') v ((relayAndWait p' pgid).bind fun waited =>
        (relayInterruptsTo none).bind fun _ => settle p' pgid waited { ctx' with terminal }) := by
      rw [runForeground_eq]
      exact Steps.bind hset _
    have hrest := hwait.bind verdict
    simp only [bind_assoc] at hrest
    refine ⟨fun waited => (settle p' pgid waited { ctx' with terminal }).bind verdict,
      (Steps.bind hstart _).trans ?_⟩
    simp only [done_bind, if_neg hback']
    exact hrest

theorem relaysOnly_runForeground {q : Program (Bool × Pipeline × Context)}
    (h : Steps (runForeground p pgid ctx) t q) :
    RelaysOnly (fun t g => g = pgid ∧ ∃ v w e terminal r, t = v ++ w ∧
      Runs (ctx.terminal.setForeground (some pgid)) v (.error e, terminal) ∧
      Steps (relayAndWait p pgid) w r) t q := by
  rw [runForeground_eq] at h
  have hset := within_setForeground ctx.terminal (some pgid)
  refine relaysOnly_bind h (fun _ _ hs => hset.relaysOnly (by decide) hs) ?_
  rintro v w ⟨result, terminal⟩ hv hw
  cases result with
  | ok value =>
    have hrest : Within [.children, .terminal, .output] ((waitStages p).bind fun waited =>
        (terminal.setForeground none).bind fun back =>
          settle p pgid waited { ctx with terminal := back.2 }) :=
      Within.bind ((within_waitStages p).mono (by simp)) fun waited =>
        Within.bind ((within_setForeground terminal none).mono (by simp)) fun back =>
          (within_settle p pgid waited _).mono (by simp)
    exact hrest.relaysOnly (by decide) hw
  | error e =>
    refine (relaysOnly_stop (within_settle p pgid · _) hw).mono ?_
    rintro g ⟨rfl, r, hr⟩
    exact ⟨rfl, v, w, e, terminal, r, rfl, hv, hr⟩

/-- While a pipeline runs there is a group that interrupts are passed on to only if it was
denied the terminal and the shell waits for it. -/
theorem relaysOnly_runReached {q : Program (Verdict × Context)} (h : Steps (runReached p ctx) t q) :
    RelaysOnly (fun t pgid => ∃ u w p' r, t = u ++ w ∧ Denied p ctx u p' pgid ∧
      Steps (relayAndWait p' pgid) w r) t q := by
  simp only [runReached, bind_eq, pure_eq] at h
  have hstart := within_startPipeline ctx p
  refine relaysOnly_bind h (fun _ _ hs => hstart.relaysOnly (by decide) hs) ?_
  rintro u w ⟨started, p', ctx'⟩ hu hw
  cases started with
  | error e =>
    have hfailed : Within [.output, .children] ((complain e.message).bind fun _ =>
        (waitStages p').bind fun _ => done (Verdict.next, ctx'.setStatus p' e.status)) :=
      Within.bind ((within_printText _).mono (by simp)) fun _ =>
        Within.bind ((within_waitStages p').mono (by simp)) fun _ => within_done _
    exact hfailed.relaysOnly (by decide) hw
  | ok started =>
    cases started with
    | finished outcome =>
      cases outcome <;> (cases hw; exact .inl .nil)
    | group pgid =>
      dsimp only at hw
      split at hw
      · have hdetach : Within [.output] ((detach p' pgid ctx').bind fun ctx =>
            done (Verdict.next, ctx)) :=
          Within.bind (within_detach ctx' p' pgid) fun _ => within_done _
        exact hdetach.relaysOnly (by decide) hw
      · rename_i hb
        have hback : p.isBackground = false := by
          rw [startPipeline_isBackground hu] at hb
          exact eq_false_of_ne_true hb
        refine relaysOnly_bind hw (fun _ _ hs => (relaysOnly_runForeground hs).mono ?_) ?_
        · rintro g ⟨rfl, v, w, e, terminal, r, rfl, hv, hwait⟩
          exact ⟨u ++ v, w, p', r, by simp, .intro hback hu hv, hwait⟩
        · rintro _ _ _ - hdone
          cases hdone
          exact .inl .nil

end

/-- A list comes to `rest` behind the exchanges `t`. -/
def Comes (before : Option Join) (ctx : Context) (ps : CommandList) (t : List Event)
    (after : Option Join) (ctx' : Context) (rest : CommandList) : Prop :=
  ∃ qs log, ps = qs ++ rest ∧ Passes before ctx qs t log after ctx'

/-- The evaluation of a line comes to `rest`, what is left of its list. -/
inductive ComesTo (line : String) (ctx : Context) :
    List Event → Option Join → Context → CommandList → Prop
  | intro {list rest : CommandList} {t u : List Event} {before : Option Join}
      {ctx₁ ctx' : Context} : Runs ctx.reap t ctx₁ → parse line = .ok list →
      Comes none ctx₁ list u before ctx' rest →
      ComesTo line ctx (forgetting :: (t ++ u)) before ctx' rest

/-- A pipeline that `comes` up has been checked, reached and started in the foreground as the
group `pgid`. The terminal was denied to it, and the shell has interrupts passed on to it and
waits for it. -/
inductive Waits (comes : List Event → Option Join → Context → CommandList → Prop) :
    List Event → Pid → Prop
  | intro {t u w : List Event} {before : Option Join} {ctx : Context} {p p' : Pipeline}
      {ps : CommandList} {pgid : Pid} {r : Program Waited} :
      comes t before ctx (p :: ps) → reachable before ctx.lastStatus = true →
      Denied p ctx u p' pgid → Steps (relayAndWait p' pgid) w r →
      Waits comes (t ++ inquiry false :: (u ++ w)) pgid

theorem Waits.behind {comes comes' : List Event → Option Join → Context → CommandList → Prop}
    {t u : List Event} {pgid : Pid} (h : Waits comes u pgid)
    (hmap : ∀ {u before ctx rest}, comes u before ctx rest → comes' (t ++ u) before ctx rest) :
    Waits comes' (t ++ u) pgid := by
  cases h with
  | intro hcomes hr hdenied hwait =>
    rw [← List.append_assoc]
    exact .intro (hmap hcomes) hr hdenied hwait

section

variable {line : String} {ctx ctx' : Context} {before after : Option Join}
  {ps rest : CommandList} {t : List Event} {log : List Turn}

/-- A pipeline behind which the list goes on, as the program has it. -/
theorem Attempts.steps {p : Pipeline} {status : Option Status}
    (h : Attempts (reachable before ctx.lastStatus = true) none p ctx t log (.goesOn status) ctx')
    (ps : CommandList) :
    Steps (runAfter before ctx (p :: ps)) t (runAfter (some p.join) ctx' ps) := by
  simp only [runAfter, bind_eq, pure_eq]
  generalize hstanding : Standing.goesOn status = standing at h
  cases h with
  | dropped => cases hstanding
  | skipped hr =>
    refine .call false ?_
    simp only [done_bind, Bool.false_eq_true, ↓reduceIte, hr]
    exact .refl _
  | @ran t ending ctx' hr hturn =>
    refine .call false ?_
    simp only [done_bind, Bool.false_eq_true, ↓reduceIte, hr]
    have hverdict : ending.verdict = .next := by
      cases ending <;> simp_all [Ending.standing, Ending.verdict]
    have hrun := runs_runReached.mpr ⟨ending, hturn, rfl⟩
    rw [hverdict] at hrun
    exact Steps.bind hrun _

theorem Passes.steps (h : Passes before ctx ps t log after ctx') (rest : CommandList) :
    Steps (runAfter before ctx (ps ++ rest)) t (runAfter after ctx' rest) := by
  induction h with
  | nil => exact .refl _
  | next h _ ih => exact (h.steps _).trans ih

/-- Interrupts are passed on only to a pipeline of the list, once it has been reached. -/
theorem relaysOnly_runAfter {q : Program (Flow × Context)}
    (h : Steps (runAfter before ctx ps) t q) : RelaysOnly (Waits (Comes before ctx ps)) t q := by
  induction ps generalizing before ctx t with
  | nil =>
    cases h
    exact .inl .nil
  | cons p ps ih =>
    -- what comes after the first pipeline takes place behind it
    have hbehind {t₁ t₂ : List Event} {log : List Turn} {status : Option Status} {ctx₁ : Context}
        (hfirst : Attempts (reachable before ctx.lastStatus = true) none p ctx t₁ log
          (.goesOn status) ctx₁) (h : Steps (runAfter (some p.join) ctx₁ ps) t₂ q) :
        RelaysOnly (fun u => Waits (Comes before ctx (p :: ps)) (t₁ ++ u)) t₂ q := by
      refine (ih h).mono fun pgid hwaits => hwaits.behind ?_
      rintro u after ctx' rest ⟨qs, log', rfl, hpasses⟩
      exact ⟨p :: qs, _, rfl, .next hfirst hpasses⟩
    simp only [runAfter, bind_eq, pure_eq] at h
    refine relaysOnly_bind h (fun _ _ hs => ?_) ?_
    · cases hs with
      | refl _ => exact .inl .nil
      | call arrived hs =>
        cases hs
        exact .inl (.cons (relays_inquiry _ arrived) .nil)
    intro t₁ t₂ arrived hask hrest
    rw [runs_ask] at hask
    subst hask
    cases arrived with
    | true =>
      cases hrest
      exact .inl .nil
    | false =>
      simp only [Bool.false_eq_true, ↓reduceIte] at hrest
      split at hrest
      · rename_i hr
        refine relaysOnly_bind hrest (fun _ _ hs => (relaysOnly_runReached hs).mono ?_) ?_
        · rintro pgid ⟨u, w, p', r, rfl, hdenied, hwait⟩
          have hwaits : Waits (Comes before ctx (p :: ps)) ([] ++ inquiry false :: (u ++ w)) pgid :=
            .intro ⟨[], [], rfl, .nil⟩ hr hdenied hwait
          exact hwaits
        · rintro u v ⟨verdict, ctx₁⟩ hreached hv
          obtain ⟨ending, hturn, rfl⟩ := runs_runReached.mp hreached
          cases ending with
          | status s => exact hbehind (.ran hr hturn) hv
          | background => exact hbehind (.ran hr hturn) hv
          | interrupted s =>
            cases hv
            exact .inl .nil
          | exit code =>
            cases hv
            exact .inl .nil
      · rename_i hr
        exact hbehind (.skipped hr) hrest

/-- What an evaluation does once its list has been worked off. -/
def reapAgain (worked : Flow × Context) : Program (Flow × Context) :=
  worked.2.reap.bind fun ctx => done (worked.1, ctx)

theorem ComesTo.steps (h : ComesTo line ctx t before ctx' rest) :
    Steps (ctx.evaluate line) t ((runAfter before ctx' rest).bind reapAgain) := by
  cases h with
  | @intro list _ t u _ ctx₁ _ hreap hline hcomes =>
    obtain ⟨qs, log, rfl, hpasses⟩ := hcomes
    refine .call () ((Steps.bind hreap _).trans ?_)
    have hperform : ctx₁.perform line = runAfter none ctx₁ (qs ++ rest) := by
      unfold Context.perform
      rw [hline]
      cases hlist : qs ++ rest with
      | nil => rfl
      | cons p ps => rfl
    simp only [done_bind, bind_eq, pure_eq, hperform]
    exact (hpasses.steps rest).bind _

/-- A list that has come to a pipeline that is denied the terminal waits for it until it passes
interrupts on no longer. -/
theorem ComesTo.until_cleared {ctx₁ : Context} {p p' : Pipeline} {u v w : List Event} {pgid : Pid}
    {q : Program (Flow × Context)} (h : ComesTo line ctx t before ctx₁ (p :: ps))
    (hr : reachable before ctx₁.lastStatus = true) (hd : Denied p ctx₁ u p' pgid)
    (hs : Steps (ctx.evaluate line) (t ++ inquiry false :: (u ++ (v ++ clearing :: w))) q)
    (hv : clearing ∉ v) :
    ∃ y x r, v = y ++ x ∧ Runs (relayInterruptsTo (some pgid)) y () ∧
      Steps (waitStages p') x r := by
  obtain ⟨rest, hwait⟩ := hd.steps
  -- how the list goes on behind the pipeline is of no interest here
  obtain ⟨next, hto⟩ : ∃ next : Verdict × Context → Program (Flow × Context),
      Steps (ctx.evaluate line) (t ++ inquiry false :: u)
        ((((relayAndWait p' pgid).bind fun waited => (relayInterruptsTo none).bind fun _ =>
          rest waited).bind next).bind reapAgain) := by
    constructor
    refine h.steps.trans (Steps.bind (.call false ?_) _)
    simp only [done_bind, Bool.false_eq_true, ↓reduceIte, hr]
    exact hwait.bind _
  rw [← List.cons_append, ← List.append_assoc] at hs
  obtain hnil | hrest := hto.suffix hs
  · simp at hnil
  simp only [bind_assoc] at hrest
  obtain ⟨r, hr, -⟩ | ⟨y, z, waited, heq, hy, hz⟩ := steps_bind.mp hrest
  · exact absurd (by simp) (clearing_not_mem hr)
  -- the wait ends where interrupts are passed on no longer
  have hyv : y = v := by
    obtain ⟨more, rfl, hmore⟩ | ⟨more, rfl, rfl⟩ := List.append_eq_append_iff.mp heq
    · cases more with
      | nil => exact List.append_nil v
      | cons e more =>
        obtain ⟨rfl, -⟩ := List.cons.inj hmore
        exact absurd (by simp) (clearing_not_mem hy)
    · cases more with
      | nil => exact (List.append_nil y).symm
      | cons e more =>
        cases hz
        exact absurd (by simp [clearing]) hv
  subst hyv
  obtain ⟨y₁, y₂, value, rfl, hrelay, hwaited⟩ := runs_bind.mp hy
  exact ⟨y₁, y₂, _, rfl, hrelay, hwaited⟩

theorem relaysOnly_perform {q : Program (Flow × Context)} (h : Steps (ctx.perform line) t q) :
    RelaysOnly (fun t pgid => ∃ list, parse line = .ok list ∧ Waits (Comes none ctx list) t pgid)
      t q := by
  unfold Context.perform at h
  split at h
  · cases h
    exact .inl .nil
  · rename_i list _ hline
    exact (relaysOnly_runAfter h).mono fun _ hwaits => ⟨list, hline, hwaits⟩
  · rename_i cause _
    have hcomplaint : Within [.output] ((complain (ShellError.syntaxError cause).message).bind
        fun _ => done (Flow.continue,
          { ctx with lastStatus := (ShellError.syntaxError cause).status })) :=
      Within.bind (within_printText _) fun _ => within_done _
    exact hcomplaint.relaysOnly (by decide) h

/-- At every point of an evaluation that begins without a group to pass interrupts on to there is
none, or the shell waits for the pipeline whose group it is. There is none in the end. -/
theorem relaysOnly_evaluate {q : Program (Flow × Context)} (h : Steps (ctx.evaluate line) t q) :
    RelaysOnly (Waits (ComesTo line ctx)) t q := by
  simp only [Context.evaluate, bind_eq, pure_eq] at h
  cases h with
  | refl _ => exact .inl .nil
  | @call _ _ _ t _ answer h =>
    simp only [done_bind] at h
    refine RelaysOnly.behind (t := [forgetting]) ?_ (.cons rfl .nil)
    refine relaysOnly_bind h (fun _ _ hs => (within_reap ctx).relaysOnly (by decide) hs) ?_
    intro t₁ t₂ ctx₁ hreap hrest
    refine relaysOnly_bind hrest (fun _ _ hs => (relaysOnly_perform hs).mono ?_) ?_
    · rintro pgid ⟨list, hline, hwaits⟩
      exact Waits.behind (t := forgetting :: t₁) hwaits fun hcomes => .intro hreap hline hcomes
    · rintro t₃ t₄ ⟨flow, ctx₂⟩ - hagain
      have hwithin : Within [.children, .output] (reapAgain (flow, ctx₂)) :=
        Within.bind (within_reap ctx₂) fun _ => within_done _
      exact hwithin.relaysOnly (by decide) hagain

end

end JobShell
