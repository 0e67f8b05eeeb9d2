import JobShell.Proofs.Relaying

/-!
Interrupts at any moment. Between any two exchanges of the shell the handler of SIGINT may run,
any number of times. It notes the interrupt and passes it on to the group that is set. The shell
sets the group first and asks for the note afterwards, so that one of the two sends the signal
whenever it comes.
-/
namespace JobShell

open Program

/-- The shell makes an exchange, or the handler of SIGINT runs. -/
inductive Beat : Type 1 where
  | shell (e : Event)
  | handler

def Beat.event? : Beat → Option Event
  | shell e => some e
  | handler => none

/-- What the shell itself does in a history. -/
def exchanges (h : List Beat) : List Event := h.filterMap Beat.event?

/-- What the shell and the handler share: whether an interrupt has arrived and the group that
interrupts are passed on to. -/
structure Watch where
  arrived : Bool
  relay : Option Pid
  deriving DecidableEq, Repr

namespace Watch

def next (w : Watch) : Beat → Watch
  | .handler => { w with arrived := true }
  | .shell (.call (.forget signal) _) =>
    if signal = Signal.sigint then { w with arrived := false } else w
  | .shell (.call (.relayTo group) _) => { w with relay := group }
  | .shell _ => w

/-- To whom SIGINT is sent. The handler sends it to the group that is set, if that is a number
of a group. -/
def sends (w : Watch) : Beat → List Target
  | .handler => (w.relay.filter (0 < ·)).toList.map .group
  | .shell (.call (.kill target signal) _) => if signal = Signal.sigint then [target] else []
  | .shell _ => []

/-- The shell is told whether an interrupt has arrived, and new processes have numbers. -/
def Allows (w : Watch) : Beat → Prop
  | .shell (.call (.hasArrived signal) answer) => signal = Signal.sigint → answer = w.arrived
  | .shell (.fork _ answer) => ∀ pid, answer = .ok pid → 0 < pid
  | _ => True

def after (w : Watch) (h : List Beat) : Watch := h.foldl next w

/-- To whom SIGINT is sent in the course of a history. -/
def sent (w : Watch) : List Beat → List Target
  | [] => []
  | b :: h => w.sends b ++ (w.next b).sent h

def Honest (w : Watch) : List Beat → Prop
  | [] => True
  | b :: h => w.Allows b ∧ (w.next b).Honest h

@[simp] theorem after_cons (w : Watch) (b : Beat) (h : List Beat) :
    w.after (b :: h) = (w.next b).after h := rfl

@[simp] theorem after_append (w : Watch) (h₁ h₂ : List Beat) :
    w.after (h₁ ++ h₂) = (w.after h₁).after h₂ := List.foldl_append

@[simp] theorem sent_append (w : Watch) (h₁ h₂ : List Beat) :
    w.sent (h₁ ++ h₂) = w.sent h₁ ++ (w.after h₁).sent h₂ := by
  induction h₁ generalizing w with
  | nil => rfl
  | cons b h₁ ih => simp [sent, ih]

@[simp] theorem honest_append (w : Watch) (h₁ h₂ : List Beat) :
    w.Honest (h₁ ++ h₂) ↔ w.Honest h₁ ∧ (w.after h₁).Honest h₂ := by
  induction h₁ generalizing w with
  | nil => simp [Honest, after]
  | cons b h₁ ih => simp [Honest, ih, and_assoc]

theorem mem_sent (w : Watch) {h₁ h₂ : List Beat} {b : Beat} {target : Target}
    (h : target ∈ (w.after h₁).sends b) : target ∈ w.sent (h₁ ++ b :: h₂) := by
  simp [sent, h]

end Watch

@[simp] theorem exchanges_append (h₁ h₂ : List Beat) :
    exchanges (h₁ ++ h₂) = exchanges h₁ ++ exchanges h₂ := List.filterMap_append

@[simp] theorem exchanges_shell (e : Event) (h : List Beat) :
    exchanges (.shell e :: h) = e :: exchanges h := rfl

@[simp] theorem exchanges_handler (h : List Beat) : exchanges (.handler :: h) = exchanges h := rfl

theorem exchanges_cons {h : List Beat} {e : Event} {t : List Event} (heq : exchanges h = e :: t) :
    ∃ h₁ h₂, h = h₁ ++ .shell e :: h₂ ∧ exchanges h₁ = [] ∧ exchanges h₂ = t := by
  obtain ⟨h₁, b, h₂, rfl, hnone, hb, ht⟩ := List.filterMap_eq_cons_iff.mp heq
  cases b with
  | handler => cases hb
  | shell e' =>
    cases hb
    exact ⟨h₁, h₂, rfl, List.filterMap_eq_nil_iff.mpr hnone, ht⟩

section

variable {w : Watch} {h : List Beat} {e : Event} {relay : Option Pid}

theorem Relays.relay_next (hr : Relays w.relay e relay) : (w.next (.shell e)).relay = relay := by
  unfold Relays at hr
  split at hr
  · exact hr.symm
  · exact hr.1.symm
  · rename_i hrelay _
    rw [hr]
    unfold Watch.next
    split
    · rename_i heq
      cases heq
    · split <;> rfl
    · rename_i heq
      cases heq
      exact absurd rfl (hrelay _ _)
    · rfl

theorem Relays.sends {target : Target} (hr : Relays w.relay e relay)
    (hs : target ∈ w.sends (.shell e)) : ∃ pgid, target = .group pgid ∧ w.relay = some pgid := by
  unfold Watch.sends at hs
  split at hs
  · rename_i heq
    cases heq
  · rename_i heq
    cases heq
    obtain ⟨-, hrelay⟩ := hr
    obtain ⟨pgid, hpgid, htarget⟩ := Option.map_eq_some_iff.mp hrelay
    split at hs
    · exact ⟨pgid, (List.mem_singleton.mp hs).trans htarget.symm, hpgid⟩
    · cases hs
  · cases hs

theorem Leads.relay_after (hl : Leads Relays w.relay (exchanges h) relay) :
    (w.after h).relay = relay := by
  induction h generalizing w with
  | nil => exact (leads_nil.mp hl).symm
  | cons b h ih =>
    cases b with
    | handler => exact ih (w := w.next .handler) hl
    | shell e =>
      obtain ⟨relay₁, he, hl⟩ := leads_cons.mp hl
      exact ih (he.relay_next ▸ hl)

/-- A note of an interrupt stays until it is forgotten. -/
theorem arrived_after (hw : w.arrived = true)
    (hno : ∀ e ∈ exchanges h, e.request.topic ≠ .recording) : (w.after h).arrived = true := by
  induction h generalizing w with
  | nil => exact hw
  | cons b h ih =>
    cases b with
    | handler => exact ih (w := w.next .handler) rfl hno
    | shell e =>
      rw [exchanges_shell, List.forall_mem_cons] at hno
      refine ih (w := w.next (.shell e)) ?_ hno.2
      unfold Watch.next
      split
      · rfl
      · rename_i heq
        cases heq
        exact absurd rfl hno.1
      · exact hw
      · exact hw

theorem arrived_of_handler (hmem : .handler ∈ h)
    (hno : ∀ e ∈ exchanges h, e.request.topic ≠ .recording) : (w.after h).arrived = true := by
  obtain ⟨h₁, h₂, rfl⟩ := List.append_of_mem hmem
  rw [Watch.after_append]
  refine arrived_after (h := h₂) (w := (w.after h₁).next .handler) rfl fun e he => hno e ?_
  simp [he]

theorem Watch.Honest.inquiry {h₁ h₂ : List Beat} {arrived : Bool}
    (hh : w.Honest (h₁ ++ .shell (inquiry arrived) :: h₂)) :
    arrived = (w.after h₁).arrived :=
  ((Watch.honest_append w h₁ _).mp hh).2.1 rfl

theorem Watch.Honest.within {h₁ h₂ h₃ : List Beat} {b : Beat}
    (hh : w.Honest (h₁ ++ b :: (h₂ ++ h₃))) : (w.after (h₁ ++ [b])).Honest h₂ := by
  rw [← List.singleton_append, ← List.append_assoc, ← List.append_assoc] at hh
  rw [Watch.honest_append, Watch.honest_append] at hh
  exact hh.1.2

theorem mem_exchanges : e ∈ exchanges h ↔ .shell e ∈ h := by
  induction h with
  | nil => simp [exchanges]
  | cons b h ih => cases b <;> simp [ih]

theorem Watch.Honest.allows {b : Beat} (hh : w.Honest h) (hb : b ∈ h) :
    ∃ w', Watch.Allows w' b := by
  obtain ⟨h₁, h₂, rfl⟩ := List.append_of_mem hb
  exact ⟨_, ((Watch.honest_append w h₁ _).mp hh).2.1⟩

/-- Where an interrupt has been noted the shell sends it when it asks for the note. -/
theorem sent_of_arrived {pgid : Pid} {arrived : Bool} {u v : List Event} (hw : w.arrived = true)
    (hh : w.Honest h) (heq : exchanges h = inquiry arrived :: (u ++ v))
    (hkill : arrived = true → ∃ answer, u = [.call (.kill (.group pgid) Signal.sigint) answer]) :
    .group pgid ∈ w.sent h := by
  obtain ⟨h₁, h₂, rfl, hnone, hrest⟩ := exchanges_cons heq
  have hasked : arrived = true := hh.inquiry.trans (arrived_after hw (by simp [hnone]))
  obtain ⟨answer, rfl⟩ := hkill hasked
  obtain ⟨h₃, h₄, rfl, -, -⟩ := exchanges_cons hrest
  rw [← List.cons_append, ← List.append_assoc]
  exact Watch.mem_sent w (by simp [Watch.sends])

/-- Where the group stays set the handler sends an interrupt to it. -/
theorem sent_of_handler {pgid : Pid} (hpos : 0 < pgid)
    (hset : ∀ h₁ h₂, h = h₁ ++ h₂ → (w.after h₁).relay = some pgid) (hmem : .handler ∈ h) :
    .group pgid ∈ w.sent h := by
  obtain ⟨h₁, h₂, rfl⟩ := List.append_of_mem hmem
  refine Watch.mem_sent w ?_
  simp [Watch.sends, hset h₁ _ rfl, hpos]

/-- A handler that runs while a pipeline is started, is denied the terminal and is waited for
sends SIGINT to the group of the pipeline, or the shell itself does. -/
theorem Denied.delivered {p p' : Pipeline} {ctx : Context} {pgid : Pid} {u v x : List Event}
    {r : Program Waited} (hd : Denied p ctx u p' pgid)
    (hv : Runs (relayInterruptsTo (some pgid)) v ()) (hx : Steps (waitStages p') x r)
    (heq : exchanges h = u ++ (v ++ x)) (hh : w.Honest h) (hmem : .handler ∈ h) :
    .group pgid ∈ w.sent h := by
  have hpos : 0 < pgid := by
    obtain ⟨child, hfork⟩ := hd.founded
    have hfork : .shell (.fork child (.ok pgid)) ∈ h := mem_exchanges.mp (by simp [heq, hfork])
    obtain ⟨w', hallows⟩ := hh.allows hfork
    exact hallows pgid rfl
  have hwait : Steps (relayAndWait p' pgid) (v ++ x) r := (Steps.bind hv _).trans hx
  obtain ⟨arrived, v, rfl, hkill⟩ := runs_relay hv
  obtain ⟨h₁, h₂, rfl, hu, hrest⟩ := List.filterMap_eq_append_iff.mp heq
  obtain ⟨h₃, h₄, rfl, hnone, hrest⟩ := exchanges_cons hrest
  rw [← List.append_assoc] at hh hmem ⊢
  have hbefore : exchanges (h₁ ++ h₃) = u := by
    rw [exchanges_append, hnone, List.append_nil]
    exact hu
  generalize h₁ ++ h₃ = h₅ at hh hmem hbefore ⊢
  rw [Watch.honest_append] at hh
  rw [Watch.sent_append]
  refine List.mem_append_right _ (List.mem_append_right _ ?_)
  obtain hearlier | hlater := List.mem_append.mp hmem
  · have harrived : (w.after h₅).arrived = true :=
      arrived_of_handler hearlier fun e he => hd.topic (hbefore ▸ he)
    exact sent_of_arrived harrived hh.2.2 hrest hkill
  · refine sent_of_handler hpos ?_ (by simpa using hlater)
    rintro h₆ h₇ rfl
    -- no other group is set before the wait is over
    rw [exchanges_append] at hrest
    have hsplit : Steps (relayAndWait p' pgid)
        ((.call (.relayTo (some pgid)) () :: exchanges h₆) ++ exchanges h₇) r := by
      rw [List.cons_append, hrest]
      exact hwait
    obtain ⟨q, hq, -⟩ := hsplit.split
    obtain hnil | hl := steps_relayAndWait (w.after h₅).relay hq
    · cases hnil
    · exact Leads.relay_after (h := .shell (.call (.relayTo (some pgid)) ()) :: h₆) hl

end

section

variable {line : String} {ctx : Context} {w : Watch} {h : List Beat} {t : List Event}
  {q : Program (Flow × Context)}

/-- An evaluation forgets interrupts only at its beginning. -/
theorem steps_evaluate_recording (hs : Steps (ctx.evaluate line) t q) :
    t = [] ∨ ∃ u, t = forgetting :: u ∧ ∀ e ∈ u, e.request.topic ≠ .recording := by
  have hrest : Within [.children, .descriptors, .directory, .output, .terminal, .interrupts, .other]
      (ctx.reap.bind fun ctx => (ctx.perform line).bind reapAgain) :=
    Within.bind ((within_reap ctx).mono (by simp)) fun ctx =>
      Within.bind (within_perform ctx line) fun worked =>
        Within.bind ((within_reap worked.2).mono (by simp)) fun _ => within_done _
  simp only [Context.evaluate, bind_eq, pure_eq] at hs
  cases hs with
  | refl _ => exact .inl rfl
  | @call _ _ _ u _ answer hs =>
    refine .inr ⟨u, rfl, fun e he htopic => ?_⟩
    have hwithin := hrest.events hs e he
    rw [htopic] at hwithin
    simp at hwithin

/-- Interrupts are passed on only to a pipeline that the shell waits for. -/
theorem relay_waits (hs : Steps (ctx.evaluate line) (exchanges h) q) (hw : w.relay = none) :
    (∀ pgid, (w.after h).relay = some pgid → Waits (ComesTo line ctx) (exchanges h) pgid) ∧
      ∀ value, q = done value → (w.after h).relay = none := by
  obtain hl | ⟨pgid, hl, hne, hwaits⟩ := relaysOnly_evaluate hs
  · have hrelay : (w.after h).relay = none := Leads.relay_after (hw ▸ hl)
    exact ⟨fun pgid hpgid => absurd (hrelay.symm.trans hpgid) (by simp), fun _ _ => hrelay⟩
  · have hrelay : (w.after h).relay = some pgid := Leads.relay_after (hw ▸ hl)
    refine ⟨fun pgid' hpgid => ?_, fun value hq => absurd hq (hne value)⟩
    obtain rfl := Option.some.inj (hrelay.symm.trans hpgid)
    exact hwaits

/-- SIGINT is sent to no other group than that one. -/
theorem sends_relay {h₁ h₂ : List Beat} {b : Beat} {target : Target}
    (hs : Steps (ctx.evaluate line) (exchanges (h₁ ++ b :: h₂)) q) (hw : w.relay = none)
    (htarget : target ∈ (w.after h₁).sends b) :
    ∃ pgid, target = .group pgid ∧ (w.after h₁).relay = some pgid := by
  cases b with
  | handler =>
    obtain ⟨pgid, hpgid, rfl⟩ :
        ∃ pgid ∈ ((w.after h₁).relay.filter (0 < ·)), .group pgid = target := by
      simpa [Watch.sends] using htarget
    exact ⟨pgid, rfl, (Option.filter_eq_some_iff.mp hpgid).1⟩
  | shell e =>
    obtain ⟨relay, hl⟩ : ∃ relay, Leads Relays none (exchanges (h₁ ++ .shell e :: h₂)) relay := by
      obtain hl | ⟨pgid, hl, -⟩ := relaysOnly_evaluate hs
      · exact ⟨_, hl⟩
      · exact ⟨_, hl⟩
    rw [exchanges_append, exchanges_shell] at hl
    obtain ⟨relay₁, hl₁, hl₂⟩ := leads_append.mp hl
    obtain ⟨relay₂, he, -⟩ := leads_cons.mp hl₂
    have hrelay : (w.after h₁).relay = relay₁ := Leads.relay_after (hw ▸ hl₁)
    exact Relays.sends (hrelay ▸ he) htarget

/-- Behind the forgetting a note stays, and so no later check lets a pipeline through. -/
theorem noted_of_handler {h₁ h₂ : List Beat}
    (hs : Steps (ctx.evaluate line) (exchanges (h₁ ++ .handler :: h₂)) q)
    (hh : w.Honest (h₁ ++ .handler :: h₂)) (hforgot : .shell forgetting ∈ h₁) :
    (w.after (h₁ ++ .handler :: h₂)).arrived = true ∧ .shell (inquiry false) ∉ h₂ := by
  have hno : ∀ e ∈ exchanges h₂, e.request.topic ≠ .recording := by
    rw [exchanges_append, exchanges_handler] at hs
    obtain ⟨e, t, ht⟩ := List.exists_cons_of_ne_nil (List.ne_nil_of_mem (mem_exchanges.mpr hforgot))
    rw [ht] at hs
    obtain hnil | ⟨u, hu, hno⟩ := steps_evaluate_recording hs
    · cases hnil
    · obtain ⟨-, rfl⟩ := List.cons.inj hu
      exact fun e he => hno e (List.mem_append_right _ he)
  refine ⟨?_, fun hchecked => ?_⟩
  · rw [Watch.after_append]
    exact arrived_after (w := (w.after h₁).next .handler) rfl hno
  · obtain ⟨h₃, h₄, rfl⟩ := List.append_of_mem hchecked
    rw [← List.cons_append, ← List.append_assoc] at hh
    have harrived : (w.after (h₁ ++ .handler :: h₃)).arrived = true := by
      rw [Watch.after_append]
      refine arrived_after (w := (w.after h₁).next .handler) rfl fun e he => hno e ?_
      rw [exchanges_append]
      exact List.mem_append_left _ he
    exact Bool.false_ne_true (hh.inquiry.trans harrived)

/-- Where the list comes to a pipeline it asks for interrupts, and one that has arrived leaves
nothing to be done but to reap the jobs. -/
theorem ComesTo.checks {before : Option Join} {ctx₁ : Context} {p : Pipeline} {ps : CommandList}
    {u : List Event} (h : ComesTo line ctx t before ctx₁ (p :: ps))
    (hs : Steps (ctx.evaluate line) (t ++ u) q) :
    u = [] ∨ ∃ arrived v, u = inquiry arrived :: v ∧
      (arrived = true → Steps (reapAgain (.continue, ctx₁)) v q) := by
  obtain hu | hrest := h.steps.suffix hs
  · exact .inl hu
  · simp only [runAfter, bind_eq, pure_eq] at hrest
    cases hrest with
    | refl _ => exact .inl rfl
    | @call _ _ _ v _ arrived hrest =>
      refine .inr ⟨arrived, v, rfl, ?_⟩
      rintro rfl
      exact hrest

/-- What holds of interrupts in a history `h` of an evaluation that `q` is left of. -/
structure Delivers (line : String) (ctx : Context) (w : Watch) (h : List Beat)
    (q : Program (Flow × Context)) : Prop where
  /-- A handler that runs after the check before a foreground pipeline and before interrupts are
  no longer passed on to it makes SIGINT reach its group, if that was denied the terminal. -/
  delivered : ∀ h₁ h₂ h₃ before ctx₁ p ps p' pgid u,
    h = h₁ ++ .shell (inquiry false) :: (h₂ ++ .shell clearing :: h₃) →
    ComesTo line ctx (exchanges h₁) before ctx₁ (p :: ps) →
    reachable before ctx₁.lastStatus = true → Denied p ctx₁ u p' pgid → u <+: exchanges h₂ →
    .shell clearing ∉ h₂ → .handler ∈ h₂ →
    .group pgid ∈ (w.after (h₁ ++ [.shell (inquiry false)])).sent h₂
  /-- It does so by the time at which the shell waits for the pipeline, however long that takes. -/
  waiting : ∀ h₁ h₂ h₃ before ctx₁ p ps p' pgid u v x r,
    h = h₁ ++ .shell (inquiry false) :: (h₂ ++ h₃) →
    ComesTo line ctx (exchanges h₁) before ctx₁ (p :: ps) → Denied p ctx₁ u p' pgid →
    Runs (relayInterruptsTo (some pgid)) v () → Steps (waitStages p') x r →
    exchanges h₂ = u ++ (v ++ x) → .handler ∈ h₂ →
    .group pgid ∈ (w.after (h₁ ++ [.shell (inquiry false)])).sent h₂
  /-- There is a group that interrupts are passed on to only while the shell waits for a pipeline
  that was denied the terminal, and it is the group of that pipeline. -/
  relay : ∀ pgid, (w.after h).relay = some pgid → Waits (ComesTo line ctx) (exchanges h) pgid
  ended : ∀ value, q = done value → (w.after h).relay = none
  /-- Whoever sends SIGINT, it goes to that group. -/
  aimed : ∀ h₁ b h₂ target, h = h₁ ++ b :: h₂ → target ∈ (w.after h₁).sends b →
    ∃ pgid, target = .group pgid ∧ (w.after h₁).relay = some pgid ∧
      Waits (ComesTo line ctx) (exchanges h₁) pgid
  /-- Once an interrupt has arrived it stays noted, no check lets a pipeline through, and where
  the list comes to its next pipeline it is dropped. -/
  dropped : ∀ h₁ h₂, h = h₁ ++ .handler :: h₂ → .shell forgetting ∈ h₁ →
    (w.after h).arrived = true ∧ .shell (inquiry false) ∉ h₂ ∧
      ∀ t u before ctx₁ p ps, ComesTo line ctx t before ctx₁ (p :: ps) → exchanges h = t ++ u →
        exchanges h₁ <+: t →
        u = [] ∨ ∃ v, u = inquiry true :: v ∧ Steps (reapAgain (.continue, ctx₁)) v q

/-- No SIGINT that reaches the shell during an evaluation is lost, and none goes to a wrong group,
whenever the handler runs. -/
theorem evaluate_delivers (hs : Steps (ctx.evaluate line) (exchanges h) q) (hw : w.relay = none)
    (hh : w.Honest h) : Delivers line ctx w h q where
  delivered := by
    rintro h₁ h₂ h₃ before ctx₁ p ps p' pgid u rfl hcomes hr hd ⟨v, hv⟩ hno hmem
    have hnone : clearing ∉ v := by
      intro hclear
      refine hno (mem_exchanges.mp ?_)
      rw [← hv]
      exact List.mem_append_right u hclear
    simp only [exchanges_append, exchanges_shell, ← hv, List.append_assoc] at hs
    obtain ⟨y, x, r, rfl, hrelay, hwait⟩ := hcomes.until_cleared hr hd hs hnone
    exact hd.delivered hrelay hwait hv.symm hh.within hmem
  waiting := by
    rintro h₁ h₂ h₃ before ctx₁ p ps p' pgid u v x r rfl - hd hv hx heq hmem
    exact hd.delivered hv hx heq hh.within hmem
  relay := (relay_waits hs hw).1
  ended := (relay_waits hs hw).2
  aimed := by
    rintro h₁ b h₂ target rfl htarget
    obtain ⟨pgid, htarget, hrelay⟩ := sends_relay hs hw htarget
    rw [exchanges_append] at hs
    obtain ⟨q₁, hs₁, -⟩ := hs.split
    exact ⟨pgid, htarget, hrelay, (relay_waits hs₁ hw).1 pgid hrelay⟩
  dropped := by
    rintro h₁ h₂ rfl hforgot
    obtain ⟨harrived, hnone⟩ := noted_of_handler hs hh hforgot
    refine ⟨harrived, hnone, ?_⟩
    rintro t u before ctx₁ p ps hcomes heq ⟨t', rfl⟩
    obtain hu | ⟨arrived, v, rfl, hcut⟩ := hcomes.checks (heq ▸ hs)
    · exact .inl hu
    · refine .inr ⟨v, ?_⟩
      cases arrived with
      | true => exact ⟨rfl, hcut rfl⟩
      | false =>
        -- the check comes behind the handler
        rw [exchanges_append, exchanges_handler, List.append_assoc] at heq
        refine absurd (mem_exchanges.mp ?_) hnone
        rw [List.append_cancel_left heq]
        simp

/-- An interrupt that arrives before the process of `a` is started is sent once its group is set,
and one that arrives when it has ended is sent by the handler. -/
theorem evaluate_delivers_early_and_late :
    let a : Stage := { argv := ["a"] }
    let ctx : Context := { terminal := { fd := none, shellGroup := 1 }, cwd := "/" }
    let killed : Context := { ctx with lastStatus := 130 }
    let h : List Beat := [.shell forgetting, .shell (inquiry false), .handler,
      .shell (.fork (stageProcess 0 a [] none ctx) (.ok 7)),
      .shell (.call (.setGroup 7 7) (.ok ())), .shell (.call (.relayTo (some 7)) ()),
      .shell (inquiry true), .shell (.call (.kill (.group 7) Signal.sigint) (.ok ())),
      .shell (.call (.wait 7 { untraced := true }) (.ok (.signaled Signal.sigint))), .handler,
      .shell clearing]
    Runs (ctx.evaluate "a") (exchanges h) (.continue, killed) ∧
      Watch.Honest ⟨false, none⟩ h ∧ Watch.sent ⟨false, none⟩ h = [.group 7, .group 7] ∧
      Delivers "a" ctx ⟨false, none⟩ h (done (.continue, killed)) := by
  intro a ctx killed h
  let p : Pipeline := { stages := [a], join := .none }
  have hline : parse "a" = .ok [p] := parse_word rfl
  let p' : Pipeline := { p with stages := [{ a with pid := some 7 }], group := some 7 }
  have hstart : Runs (startPipeline p ctx) [.fork (stageProcess 0 a [] none ctx) (.ok 7),
      .call (.setGroup 7 7) (.ok ())] (.ok (.group 7), p', ctx) :=
    .fork (Except.ok 7) (.call (Except.ok ()) (.refl _))
  have hwaited : Runs (runForeground p' 7 ctx) [.call (.relayTo (some 7)) (), inquiry true,
      .call (.kill (.group 7) Signal.sigint) (.ok ()),
      .call (.wait 7 { untraced := true }) (.ok (.signaled Signal.sigint)),
      clearing] (true, { p' with status := some 130 }, killed) := by
    refine .call () (.call true (.call (Except.ok ()) (.loop ?_)))
    exact .call (Except.ok (WaitStatus.signaled Signal.sigint)) (.call () (.refl _))
  have hrun : Runs (ctx.evaluate "a") (exchanges h) (.continue, killed) := by
    have hturn := TurnsOut.interrupted hstart rfl hwaited rfl
    have hperform : Performs "a" ctx (exchanges h).tail _ .continue killed :=
      .list hline (.cut (.ran rfl hturn))
    have heval := Evaluation.intro (x := ⟨[], (exchanges h).tail, []⟩) (.refl ctx.reap) hperform
      (.refl killed.reap)
    exact runs_evaluate.mpr ⟨_, _, rfl, heval⟩
  have hhonest : Watch.Honest ⟨false, none⟩ h := by
    simp [h, Watch.Honest, Watch.Allows, Watch.next, forgetting, inquiry, clearing]
  refine ⟨hrun, hhonest, ?_, evaluate_delivers hrun rfl hhonest⟩
  simp [h, Watch.sent, Watch.sends, Watch.next, forgetting, inquiry, clearing]

end

end JobShell
