import Mathlib.Data.List.Nodup
import Mathlib.Logic.Relation
import JobShell.Proofs.Enrolment
import JobShell.Proofs.PipesWired

/-!
The process groups of the shell and its children while it starts a pipeline. Each child is put
into the group of the first one twice, by itself and by the shell, and these requests, the set-up
of the children, their becoming other programs and their ends may come in any order that the
programs leave open. Whichever request for a child comes first, it is granted, and nothing that
comes later moves the child again.
-/
namespace JobShell

open Program

/-- A child of the shell that nobody has waited for yet. -/
structure Member where
  pid : Pid
  group : Pid
  program : Program Empty
  past : List Event := []
  rest : Program Empty
  /-- It has become another program. -/
  replaced : Bool := false
  ended : Bool := false

/-- The group that a number stands for where the child is to be put into it. -/
def Member.goal (q : Member) (group : Pid) : Pid := if group = 0 then q.pid else group

/-- The shell, the group it is in, and its children in the order in which it has started them. -/
structure Crew (α : Type) where
  group : Pid
  past : List Event := []
  rest : Program α
  members : List Member := []

/-- A new child is in the group of the shell. -/
def Event.enlisted (group : Pid) : Event → List Member
  | .fork child (.ok pid) => [{ pid, group, program := child, rest := child }]
  | _ => []

namespace Crew

variable {α : Type}

def start (group : Pid) (program : Program α) : Crew α := { group, rest := program }

/-- The number of the first child. -/
def founder? (w : Crew α) : Option Pid := w.members.head?.map Member.pid

/-- A group exists as long as a child that was not waited for is in it, dead or alive. -/
def HasGroup (w : Crew α) (group : Pid) : Prop :=
  group = w.group ∨ ∃ q ∈ w.members, q.group = group

/-- A child that is still what it was started as may be put into a group of its own or into one
that exists. -/
def MayMove (w : Crew α) (q : Member) (group : Pid) : Prop :=
  q.replaced = false ∧ (group = q.pid ∨ w.HasGroup group)

/-- The child `q`, the one at `i`, is meant by the number `pid`, for the shell or, if there is
one, for the child `caller`. -/
def Means (w : Crew α) (caller : Option Nat) (pid : Pid) (i : Nat) (q : Member) : Prop :=
  w.members[i]? = some q ∧ match caller with
    | none => q.pid = pid
    | some j => j = i ∧ (pid = 0 ∨ pid = q.pid)

/-- What an exchange makes of the children's groups: a child is put into a group exactly if it may
be, and everything else leaves them as they are. -/
inductive Regroups (w : Crew α) (caller : Option Nat) : Event → List Member → Prop
  | moved {pid group : Pid} {i : Nat} {q : Member} : w.Means caller pid i q →
      w.MayMove q (q.goal group) → Regroups w caller (.call (.setGroup pid group) (.ok ()))
        (w.members.set i { q with group := q.goal group })
  | refused {pid group : Pid} {i : Nat} {q : Member} (e : Errno) : w.Means caller pid i q →
      ¬ w.MayMove q (q.goal group) →
      Regroups w caller (.call (.setGroup pid group) (.error e)) w.members
  | elsewhere {pid group : Pid} {answer : Except Errno Unit} :
      (∀ i q, ¬ w.Means caller pid i q) →
      Regroups w caller (.call (.setGroup pid group) answer) w.members
  | other {e : Event} : ¬ e.request.Regroups → Regroups w caller e w.members

/-- One step of the shell or of a child. A new child has a number that no other has. -/
inductive Step : Crew α → Crew α → Prop
  | shell {w : Crew α} {e : Event} {rest : Program α} {members : List Member} :
      Steps w.rest [e] rest → w.Regroups none e members →
      (∀ q ∈ e.enlisted w.group, q.pid ≠ 0 ∧ ∀ q' ∈ w.members, q'.pid ≠ q.pid) →
      Step w { w with past := w.past ++ [e], rest, members := members ++ e.enlisted w.group }
  | child {w : Crew α} {i : Nat} {q q' : Member} {e : Event} {rest : Program Empty}
      {members : List Member} : w.members[i]? = some q → q.replaced = false → q.ended = false →
      Steps q.rest [e] rest → w.Regroups (some i) e members → members[i]? = some q' →
      Step w { w with members := members.set i { q' with past := q.past ++ [e], rest } }
  | replaced {w : Crew α} {i : Nat} {q : Member} {rest : Program Empty} {path : String}
      {argv : List String} {env : Environment} : w.members[i]? = some q → q.replaced = false →
      q.ended = false → Steps q.rest [] rest →
      rest.request? = some (.call (.execSearch path argv env)) →
      Step w { w with members := w.members.set i { q with replaced := true } }
  | ended {w : Crew α} {i : Nat} {q : Member} : w.members[i]? = some q →
      Step w { w with members := w.members.set i { q with ended := true } }

/-- What may have become of the shell and its children after any number of steps. -/
def Reaches : Crew α → Crew α → Prop := Relation.ReflTransGen Step

theorem exists_reaches {w w₁ : Crew α} {good : Crew α → Prop} (hs : w.Step w₁)
    (h : ∃ w', w₁.Reaches w' ∧ good w') : ∃ w', w.Reaches w' ∧ good w' := by
  obtain ⟨w', hreach, hgood⟩ := h
  exact ⟨w', hreach.head hs, hgood⟩

end Crew

/-- A child that asks for no group may go on alone. -/
theorem Crew.exists_reaches_child {α : Type} {w : Crew α} {good : Crew α → Prop} {i : Nat}
    {q : Member} {t : List Event} {rest : Program Empty} (hi : w.members[i]? = some q)
    (hstill : q.replaced = false) (halive : q.ended = false) (hs : Steps q.rest t rest)
    (hplain : ∀ e ∈ t, ¬ e.request.Regroups)
    (h : ∀ rest', Steps rest' [] rest → ∃ w', Crew.Reaches { w with
      members := w.members.set i { q with past := q.past ++ t, rest := rest' } } w' ∧ good w') :
    ∃ w', w.Reaches w' ∧ good w' := by
  induction t generalizing w q with
  | nil =>
    obtain ⟨hlt, hget⟩ := List.getElem?_eq_some_iff.mp hi
    have hnow := h q.rest hs
    rw [List.append_nil, ← hget, List.set_getElem_self] at hnow
    exact hnow
  | cons e t ih =>
    obtain ⟨r, hfirst, hthen⟩ := hs.cons_inv
    let q₁ : Member := { q with past := q.past ++ [e], rest := r }
    have hthere : (w.members.set i q₁)[i]? = some q₁ :=
      List.getElem?_set_self (List.getElem?_eq_some_iff.mp hi).1
    refine Crew.exists_reaches
      (.child hi hstill halive hfirst (.other (hplain e List.mem_cons_self)) hi) ?_
    refine ih (w := { w with members := w.members.set i q₁ }) hthere hstill halive hthen
      (fun e' he' => hplain e' (List.mem_cons_of_mem e he')) fun rest' hrest' => ?_
    have hlater := h rest' hrest'
    simpa [q₁, List.set_set] using hlater

/-- The child at `i` runs its stage, which was told the number of the founder, and it is in the
founder's group once it has made its first request or the shell has asked for it. -/
structure Member.Enrolled (p : Pipeline) (ctx : Context) (founder : Option Pid) (asked i : Nat)
    (q : Member) : Prop where
  stage : ∃ stage pipes, p.stages[i]? = some stage ∧
    q.program = stageProcess i stage pipes (if i = 0 then none else founder) ctx
  run : Steps q.program q.past q.rest
  joined : q.past ≠ [] → some q.group = founder
  put : i < asked → some q.group = founder
  replaced : q.replaced = true → q.past ≠ []

/-- The shell is on its way through starting the pipeline, and the roll is true. -/
structure Crew.Starting (p : Pipeline) (ctx : Context) (s : Roll)
    (w : Crew (Except ShellError Started × Pipeline × Context)) : Prop where
  run : Steps (startPipeline p ctx) w.past w.rest
  roll : Leads Roll.Step {} w.past s
  children : s.children = w.members.map Member.pid
  distinct : s.children.Nodup
  nonzero : ∀ q ∈ w.members, q.pid ≠ 0
  close : s.children.length ≤ s.asked + 1
  members : ∀ (i : Nat) (q : Member), w.members[i]? = some q →
    q.Enrolled p ctx w.founder? s.asked i

/-- An exchange starts a process, or puts one into a group, or has to do with neither. -/
theorem Event.kinds (e : Event) :
    (∃ child pid, e = .fork child (.ok pid)) ∨
      (∃ pid group answer, e = .call (.setGroup pid group) answer) ∨
      (¬ e.request.Regroups ∧ (∀ group, e.enlisted group = []) ∧ ∀ s : Roll, s.after e = s) := by
  cases e with
  | fork child answer =>
    cases answer with
    | ok pid => exact .inl ⟨child, pid, rfl⟩
    | error e => exact .inr (.inr ⟨id, fun _ => rfl, fun _ => rfl⟩)
  | call request answer =>
    cases request <;> first
      | exact .inr (.inl ⟨_, _, answer, rfl⟩)
      | exact .inr (.inr ⟨id, fun _ => rfl, fun _ => rfl⟩)

theorem Request.OfStage.not_regroups {r : Request} (h : r.OfStage) : ¬ r.Regroups := by
  cases r with
  | fork child => cases h
  | call request => cases request <;> first | exact id | cases h

/-- A stage asks for its group once, first of all. -/
theorem steps_stageProcess {i : Nat} {stage : Stage} {pipes : List PipeEnds} {group : Option Pid}
    {ctx : Context} {e : Event} {t : List Event} {rest : Program Empty}
    (h : Steps (stageProcess i stage pipes group ctx) (e :: t) rest) :
    (∃ answer, e = .call (.setGroup 0 (group.getD 0)) answer) ∧
      ∀ e' ∈ t, ¬ e'.request.Regroups := by
  obtain ⟨next, heq, hnext⟩ := stageProcess_eq i stage pipes group ctx
  rw [heq] at h
  cases h with
  | call answer h =>
    exact ⟨⟨answer, rfl⟩, fun e' he' => ((hnext answer).events h e' he').not_regroups⟩

section

variable {p : Pipeline} {ctx : Context} {s : Roll} {i : Nat} {q q' : Member}
  {w w' : Crew (Except ShellError Started × Pipeline × Context)}

theorem Crew.founder?_eq (w : Crew (Except ShellError Started × Pipeline × Context)) :
    w.founder? = (w.members.map Member.pid).head? := by
  rw [Crew.founder?, List.head?_map]

theorem Crew.founder?_congr (h : w'.members.map Member.pid = w.members.map Member.pid) :
    w'.founder? = w.founder? := by
  rw [Crew.founder?_eq, Crew.founder?_eq, h]

theorem map_pid_set {members : List Member} (hi : members[i]? = some q) (hpid : q'.pid = q.pid) :
    (members.set i q').map Member.pid = members.map Member.pid := by
  rw [List.map_set, hpid]
  obtain ⟨hlt, rfl⟩ := List.getElem?_eq_some_iff.mp hi
  rw [← List.getElem_map Member.pid (h := by simpa using hlt), List.set_getElem_self]

/-- A child may change as long as it stays enrolled. -/
theorem Crew.Starting.set (h : w.Starting p ctx s) (hi : w.members[i]? = some q)
    (hpid : q'.pid = q.pid) (hq' : q'.Enrolled p ctx w.founder? s.asked i) :
    Crew.Starting p ctx s { w with members := w.members.set i q' } := by
  have hpids := map_pid_set hi hpid
  have hfounder : Crew.founder? { w with members := w.members.set i q' } = w.founder? :=
    Crew.founder?_congr hpids
  refine { h with children := by rw [h.children, hpids], nonzero := ?_, members := ?_ }
  · intro r hr
    obtain hr | rfl := List.mem_or_eq_of_mem_set hr
    · exact h.nonzero r hr
    · exact hpid ▸ h.nonzero q (List.mem_of_getElem? hi)
  · intro j r hj
    rw [hfounder]
    by_cases hij : i = j
    · subst hij
      rw [List.getElem?_set_self (List.getElem?_eq_some_iff.mp hi).1] at hj
      obtain rfl := Option.some.inj hj
      exact hq'
    · rw [List.getElem?_set_ne hij] at hj
      exact h.members j r hj

/-- The founder's group exists once the shell has asked for it. -/
theorem Crew.Starting.hasGroup (h : w.Starting p ctx s) {pgid : Pid}
    (hpgid : some pgid = w.founder?) (hasked : 0 < s.asked) : w.HasGroup pgid := by
  obtain ⟨q, hq, rfl⟩ := Option.map_eq_some_iff.mp hpgid.symm
  have hfirst := (h.members 0 q (by rw [← List.head?_eq_getElem?, hq])).put hasked
  exact .inr ⟨q, List.mem_of_mem_head? hq, Option.some.inj (hfirst.trans hpgid.symm)⟩

theorem index_eq_of_pid {members : List Member} {j : Nat}
    (hdistinct : (members.map Member.pid).Nodup) (hi : members[i]? = some q)
    (hj : members[j]? = some q') (hpid : q.pid = q'.pid) : i = j := by
  refine (List.getElem?_inj ?_ hdistinct).mp ?_
  · simpa using (List.getElem?_eq_some_iff.mp hi).1
  · rw [List.getElem?_map, List.getElem?_map, hi, hj, Option.map_some, Option.map_some, hpid]

/-- Where a child may be meant, it is the only one. -/
theorem Crew.Starting.means_unique (h : w.Starting p ctx s) {caller : Option Nat} {pid : Pid}
    {j : Nat} (hi : w.Means caller pid i q) (hj : w.Means caller pid j q') : i = j ∧ q = q' := by
  have hij : i = j := by
    cases caller with
    | some k => exact hi.2.1.symm.trans hj.2.1
    | none => exact index_eq_of_pid (h.children ▸ h.distinct) hi.1 hj.1 (hi.2.trans hj.2.symm)
  subst hij
  exact ⟨rfl, Option.some.inj (hi.1.symm.trans hj.1)⟩

/-- A request that the child be put into the founder's group leaves it there, whether it is granted
or, as the child has become another program and had been there before, refused. -/
theorem Crew.Starting.regroup (h : w.Starting p ctx s) {caller : Option Nat} {pid group : Pid}
    {answer : Except Errno Unit} {members : List Member} (hi : w.Means caller pid i q)
    (hgoal : some (q.goal group) = w.founder?) (hasked : i ≠ 0 → 0 < s.asked)
    (hr : w.Regroups caller (.call (.setGroup pid group) answer) members) :
    members = w.members.set i { q with group := q.goal group } := by
  have hq := h.members i q hi.1
  generalize he : Event.call (.setGroup pid group) answer = e at hr
  cases hr with
  | moved hj _ =>
    cases he
    obtain ⟨rfl, rfl⟩ := h.means_unique hi hj
    rfl
  | refused e hj hnot =>
    cases he
    obtain ⟨rfl, rfl⟩ := h.means_unique hi hj
    have hreplaced : q.replaced = true := by
      by_contra hstill
      refine hnot ⟨by simpa using hstill, ?_⟩
      by_cases hzero : i = 0
      · subst hzero
        have hfirst : w.founder? = some q.pid := by
          rw [Crew.founder?, List.head?_eq_getElem?, hi.1, Option.map_some]
        exact .inl (Option.some.inj (hgoal.trans hfirst))
      · exact .inr (h.hasGroup hgoal (hasked hzero))
    have hthere : q.goal group = q.group :=
      Option.some.inj (hgoal.trans (hq.joined (hq.replaced hreplaced)).symm)
    obtain ⟨hlt, hget⟩ := List.getElem?_eq_some_iff.mp hi.1
    rw [hthere, ← hget, List.set_getElem_self]
  | elsewhere hnone => cases he; exact absurd hi (hnone i q)
  | other hnot => cases he; exact absurd trivial hnot

/-- What does not ask for a group leaves all groups alone. -/
theorem Crew.Regroups.same {caller : Option Nat} {e : Event} {members : List Member}
    (hr : w.Regroups caller e members) (h : ¬ e.request.Regroups) : members = w.members := by
  cases hr with
  | moved _ _ => exact absurd trivial h
  | refused e _ _ => rfl
  | elsewhere _ => rfl
  | other _ => rfl

theorem Crew.Regroups.length_eq {α : Type} {w : Crew α} {caller : Option Nat} {e : Event}
    {members : List Member} (hr : w.Regroups caller e members) :
    members.length = w.members.length := by
  cases hr with
  | moved _ _ => exact List.length_set
  | _ => rfl

/-- The first request of a child is for the founder's group. -/
theorem Crew.Starting.goal_eq (h : w.Starting p ctx s) (hi : w.members[i]? = some q) :
    some (q.goal ((if i = 0 then none else w.founder?).getD 0)) = w.founder? := by
  by_cases hzero : i = 0
  · subst hzero
    simp [Member.goal, Crew.founder?, List.head?_eq_getElem?, hi]
  · cases hm : w.members with
    | nil => simp [hm] at hi
    | cons first rest =>
      have hpid : first.pid ≠ 0 := h.nonzero first (by simp [hm])
      simp [Member.goal, Crew.founder?, hm, hzero, hpid]

/-- Behind the founder a child is started only when the shell has asked for the founder's group. -/
theorem Crew.Starting.asked_pos (h : w.Starting p ctx s) (hi : w.members[i]? = some q)
    (hzero : i ≠ 0) : 0 < s.asked := by
  have hlt : i < w.members.length := (List.getElem?_eq_some_iff.mp hi).1
  have hclose := h.close
  rw [h.children, List.length_map] at hclose
  omega

theorem Crew.Starting.child {e : Event} {rest : Program Empty} {members : List Member}
    (h : w.Starting p ctx s) (hi : w.members[i]? = some q)
    (hs : Steps q.rest [e] rest) (hr : w.Regroups (some i) e members)
    (hi' : members[i]? = some q') :
    Crew.Starting p ctx s { w with
      members := members.set i { q' with past := q.past ++ [e], rest } } := by
  have hq := h.members i q hi
  obtain ⟨stage, pipes, hstage, hprogram⟩ := hq.stage
  have hrun : Steps q.program (q.past ++ [e]) rest := hq.run.trans hs
  have hstart := hrun
  rw [hprogram] at hstart
  cases hpast : q.past with
  | nil =>
    rw [hpast, List.nil_append] at hstart
    obtain ⟨⟨answer, rfl⟩, -⟩ := steps_stageProcess hstart
    have hgoal := h.goal_eq hi
    have hmeans : w.Means (some i) 0 i q := ⟨hi, rfl, .inl rfl⟩
    obtain rfl := h.regroup hmeans hgoal (h.asked_pos hi) hr
    rw [List.getElem?_set_self (List.getElem?_eq_some_iff.mp hi).1] at hi'
    obtain rfl := Option.some.inj hi'
    rw [List.set_set]
    rw [hpast] at hrun
    exact h.set hi rfl ⟨⟨stage, pipes, hstage, hprogram⟩, hrun, fun _ => hgoal, fun _ => hgoal,
      fun _ => by simp⟩
  | cons first past =>
    rw [hpast, List.cons_append] at hstart
    have hlater := (steps_stageProcess hstart).2 e (by simp)
    obtain rfl := hr.same hlater
    obtain rfl : q = q' := Option.some.inj (hi.symm.trans hi')
    rw [hpast] at hrun
    have hthere : some q.group = w.founder? := hq.joined (by simp [hpast])
    exact h.set hi rfl ⟨⟨stage, pipes, hstage, hprogram⟩, hrun, fun _ => hthere,
      fun _ => hthere, fun _ => by simp⟩

/-- A child that is about to become another program has been through its first request. -/
theorem Member.Enrolled.past_ne_nil {founder : Option Pid} {asked : Nat} {rest : Program Empty}
    {path : String} {argv : List String} {env : Environment}
    (hq : q.Enrolled p ctx founder asked i) (hs : Steps q.rest [] rest)
    (hr : rest.request? = some (.call (.execSearch path argv env))) : q.past ≠ [] := by
  intro hpast
  obtain ⟨stage, pipes, -, hprogram⟩ := hq.stage
  obtain ⟨next, heq, -⟩ := stageProcess_eq i stage pipes (if i = 0 then none else founder) ctx
  have hrun := hq.run.trans hs
  rw [hpast, hprogram, heq] at hrun
  cases hrun
  have hgroup : (Request.call (.execSearch path argv env)).Regroups := Option.some.inj hr ▸ trivial
  exact hgroup

/-- The shell may only ask that its newest child be put into the founder's group. -/
theorem Crew.Starting.enrol {pid group : Pid} {answer : Except Errno Unit} {rest : Program _}
    {members : List Member} (h : w.Starting p ctx s)
    (ha : Enrols p ctx s (.call (.setGroup pid group)))
    (hs : Steps w.rest [.call (.setGroup pid group) answer] rest)
    (hr : w.Regroups none (.call (.setGroup pid group) answer) members) :
    Crew.Starting p ctx (s.after (.call (.setGroup pid group) answer)) { w with
      past := w.past ++ [.call (.setGroup pid group) answer], rest, members } := by
  obtain ⟨hasked, hpid, hgroup⟩ := ha
  rw [h.children] at hasked hpid hgroup
  rw [List.length_map] at hasked
  obtain ⟨q, hlast, rfl⟩ : ∃ q, w.members[s.asked]? = some q ∧ q.pid = pid := by
    rw [List.getLast?_map] at hpid
    obtain ⟨q, hq, hpid⟩ := Option.map_eq_some_iff.mp hpid
    rw [List.getLast?_eq_getElem?, ← hasked, Nat.add_sub_cancel] at hq
    exact ⟨q, hq, hpid⟩
  have hfounder : w.founder? = some group := by rw [Crew.founder?_eq, hgroup]
  have hnonzero : group ≠ 0 := by
    obtain ⟨first, hfirst, rfl⟩ := Option.map_eq_some_iff.mp hfounder
    exact h.nonzero first (List.mem_of_mem_head? hfirst)
  have hgoal : some (q.goal group) = w.founder? := by rw [Member.goal, if_neg hnonzero, hfounder]
  obtain rfl := h.regroup ⟨hlast, rfl⟩ hgoal (h.asked_pos hlast) hr
  have hq := h.members _ q hlast
  have hset : Crew.Starting p ctx s
      { w with members := w.members.set s.asked { q with group := q.goal group } } :=
    h.set hlast rfl ⟨hq.stage, hq.run, fun _ => hgoal, fun _ => hgoal, hq.replaced⟩
  have hpids : (w.members.set s.asked { q with group := q.goal group }).map Member.pid =
      w.members.map Member.pid := map_pid_set hlast rfl
  refine { hset with
    run := h.run.trans hs
    roll := leads_append.mpr ⟨s, h.roll, .cons rfl .nil⟩
    close := Nat.le_succ_of_le h.close
    members := ?_ }
  intro j r hj
  have hr' := hset.members j r hj
  refine { hr' with put := fun hlt => ?_ }
  -- the newest child is put into the group by this request, the others were before
  by_cases hold : j < s.asked
  · exact hr'.put hold
  · have hlt : j < s.asked + 1 := hlt
    obtain rfl : j = s.asked := by omega
    rw [List.getElem?_set_self (List.getElem?_eq_some_iff.mp hlast).1] at hj
    obtain rfl := Option.some.inj hj
    exact hgoal.trans (Crew.founder?_congr hpids).symm

/-- The founder stays the founder, and a child that is not the founder is told of it. -/
theorem Crew.founder?_concat (w : Crew (Except ShellError Started × Pipeline × Context))
    (new : Member) :
    (∀ q ∈ w.members, (w.members ++ [new]).head?.map Member.pid = w.founder?) ∧
      (if w.members.length = 0 then none else (w.members ++ [new]).head?.map Member.pid) =
        w.founder? := by
  rw [Crew.founder?]
  cases w.members <;> simp

/-- A new process is the one of the next stage, and it is told of the founder. -/
theorem Crew.Starting.enlist {child : Program Empty} {pid : Pid} {rest : Program _}
    (h : w.Starting p ctx s) (ha : Enrols p ctx s (.fork child))
    (hs : Steps w.rest [.fork child (.ok pid)] rest) (hnonzero : pid ≠ 0)
    (hnew : ∀ q ∈ w.members, q.pid ≠ pid) :
    Crew.Starting p ctx (s.after (.fork child (.ok pid))) { w with
      past := w.past ++ [.fork child (.ok pid)]
      rest
      members := w.members ++ [{ pid, group := w.group, program := child, rest := child }] } := by
  obtain ⟨hasked, stage, pipes, hstage, hchild⟩ := ha
  have hlength : s.children.length = w.members.length := by rw [h.children, List.length_map]
  obtain ⟨hold, htold⟩ :=
      w.founder?_concat { pid, group := w.group, program := child, rest := child }
  rw [h.children, List.length_map, ← Crew.founder?_eq] at hchild
  rw [hlength] at hasked hstage
  refine ⟨h.run.trans hs, leads_append.mpr ⟨s, h.roll, .cons rfl .nil⟩, ?_, ?_, ?_, ?_, ?_⟩
  · simp [Roll.after, h.children]
  · refine List.nodup_append.mpr ⟨h.distinct, List.nodup_singleton pid, ?_⟩
    intro pid' hpid' pid'' hpid''
    rw [h.children] at hpid'
    obtain ⟨q, hq, rfl⟩ := List.mem_map.mp hpid'
    rw [List.mem_singleton.mp hpid'']
    exact hnew q hq
  · intro q hq
    obtain hq | hq := List.mem_append.mp hq
    · exact h.nonzero q hq
    · obtain rfl := List.mem_singleton.mp hq
      exact hnonzero
  · simp [Roll.after, hasked, hlength]
  · intro j q hj
    by_cases hlt : j < w.members.length
    · rw [List.getElem?_append_left hlt] at hj
      rw [Crew.founder?, hold q (List.mem_of_getElem? hj)]
      exact h.members j q hj
    · rw [List.getElem?_append_right (Nat.le_of_not_lt hlt), List.getElem?_singleton] at hj
      obtain ⟨hle, rfl⟩ : j - w.members.length = 0 ∧ _ = q := by simpa using hj
      obtain rfl : j = w.members.length := by omega
      refine ⟨⟨stage, pipes, hstage, ?_⟩, .refl _, by simp, ?_, by simp⟩
      · rw [Crew.founder?, htold, hchild]
      · intro hput
        simp [Roll.after, hasked] at hput

/-- What has to do with neither children nor groups leaves them as they are. -/
theorem Crew.Starting.other {e : Event} {rest : Program _} (h : w.Starting p ctx s)
    (hs : Steps w.rest [e] rest) (hsame : s.after e = s) :
    Crew.Starting p ctx s { w with past := w.past ++ [e], rest } :=
  { h with
    run := h.run.trans hs
    roll := leads_append.mpr ⟨s, h.roll, .cons hsame.symm .nil⟩ }

theorem Crew.Starting.step (h : w.Starting p ctx s) (hs : w.Step w') :
    ∃ s', w'.Starting p ctx s' := by
  cases hs with
  | @shell e rest members hs hr hnew =>
    obtain ⟨r, hr₀, hrequest⟩ := hs.request?
    have hthere := h.run.trans hr₀
    rw [List.append_nil] at hthere
    have hallowed := (ensures_startPipeline_enrolled p ctx _ _ _ hthere h.roll).1 _ hrequest
    obtain ⟨child, pid, rfl⟩ | ⟨pid, group, answer, rfl⟩ | ⟨hgroup, hnone, hsame⟩ := e.kinds
    · obtain rfl := hr.same id
      obtain ⟨hnonzero, hfresh⟩ := hnew _ (List.mem_singleton_self _)
      exact ⟨_, h.enlist hallowed hs hnonzero hfresh⟩
    · have hnext := h.enrol hallowed hs hr
      rw [show Event.enlisted w.group (.call (.setGroup pid group) answer) = [] from rfl,
        List.append_nil]
      exact ⟨_, hnext⟩
    · obtain rfl := hr.same hgroup
      rw [hnone, List.append_nil]
      exact ⟨s, h.other hs (hsame s)⟩
  | child hi _ _ hs hr hi' => exact ⟨s, h.child hi hs hr hi'⟩
  | @replaced i q rest path argv env hi _ _ hs hexec =>
    have hq := h.members i q hi
    exact ⟨s, h.set hi rfl { hq with replaced := fun _ => hq.past_ne_nil hs hexec }⟩
  | @ended i q hi =>
    have hq := h.members i q hi
    exact ⟨s, h.set hi rfl { hq with }⟩

theorem starting_of_reaches {group : Pid}
    (h : Crew.Reaches (.start group (startPipeline p ctx)) w) : ∃ s, w.Starting p ctx s := by
  induction h with
  | refl => exact ⟨{}, .refl _, .nil, rfl, .nil, by simp [Crew.start], by simp,
      by simp [Crew.start]⟩
  | tail _ hstep ih =>
    obtain ⟨s, hs⟩ := ih
    exact hs.step hstep

/-- However the steps of the shell and its children follow on each other, a child that becomes
another program is in the group of the first child by then. When the shell has started the
pipeline as a group that is the group of the first child, every stage has a child of its own, all
of them are in the group, and what the shell says of the pipeline is just that. -/
theorem stages_share_group {group : Pid}
    (h : Crew.Reaches (.start group (startPipeline p ctx)) w) :
    (∀ q ∈ w.members, q.replaced = true → some q.group = w.founder?) ∧
    (∀ i q, w.members[i]? = some q → ∃ stage pipes told, p.stages[i]? = some stage ∧
      q.program = stageProcess i stage pipes told ctx) ∧
    ∀ pgid p' ctx', Runs (startPipeline p ctx) w.past (.ok (.group pgid), p', ctx') →
      w.founder? = some pgid ∧ w.members.length = p.stages.length ∧
      (∀ q ∈ w.members, q.group = pgid) ∧ p'.group = some pgid ∧
      p'.stages.map Stage.pid = w.members.map fun q => some q.pid := by
  obtain ⟨s, hs⟩ := starting_of_reaches h
  refine ⟨?_, ?_, ?_⟩
  · intro q hq hreplaced
    obtain ⟨i, hi⟩ := List.mem_iff_getElem?.mp hq
    have henrolled := hs.members i q hi
    exact henrolled.joined (henrolled.replaced hreplaced)
  · intro i q hi
    obtain ⟨stage, pipes, hstage, hprogram⟩ := (hs.members i q hi).stage
    exact ⟨stage, pipes, _, hstage, hprogram⟩
  · intro pgid p' ctx' hrun
    have htells : s.Tells pgid p.stages p' :=
      (ensures_startPipeline_enrolled p ctx).ends hrun hs.roll pgid rfl
    have hfounder : w.founder? = some pgid := by
      rw [Crew.founder?_eq, ← hs.children, htells.founder]
    have hlength : s.children.length = w.members.length := by rw [hs.children, List.length_map]
    refine ⟨hfounder, hlength ▸ htells.count, ?_, htells.group, ?_⟩
    · intro q hq
      obtain ⟨i, hi⟩ := List.mem_iff_getElem?.mp hq
      have hlt : i < w.members.length := (List.getElem?_eq_some_iff.mp hi).1
      have hput := (hs.members i q hi).put (by rw [htells.asked, hlength]; exact hlt)
      exact Option.some.inj (hput.trans hfounder)
    · rw [htells.pids, hs.children, List.map_map]
      rfl

end

def stageA : Stage := { argv := ["./a"], role := .writesNext }

def stageB : Stage := { argv := ["./b"], role := .readsPrevious }

def aToB : Pipeline := { stages := [stageA, stageB], join := .none }

/-- A new child that runs the first stage. -/
def processA : Member where
  pid := 7
  group := 1
  program := stageProcess 0 stageA [(3, 4)] none plainContext
  rest := stageProcess 0 stageA [(3, 4)] none plainContext

theorem request?_afterSetUp_a :
    (stageA.afterSetUp plainContext).request? = some (.call (.execSearch "./a" ["./a"] [])) := by
  simp [Stage.afterSetUp, Stage.isBuiltin, Stage.program?, isBuiltin, execStage, ask, Program.bind,
    Program.request?, plainContext, stageA]

theorem steps_stageProcess_a : Steps (stageProcess 0 stageA [(3, 4)] none plainContext)
    (connectEvents 0 4 1) (stageA.afterSetUp plainContext) := by
  -- the group, then six signals, then the pipe
  refine .call (Except.ok ()) (.call (Except.ok ()) (.call (Except.ok ()) ?_))
  refine .call (Except.ok ()) (.call (Except.ok ()) (.call (Except.ok ()) ?_))
  refine .call (Except.ok ()) (.loop (.call (Except.ok ()) ?_))
  exact .call (Except.ok ()) (.call (Except.ok ()) (.refl _))

/-- The child may become its program before the shell does anything. -/
theorem Crew.exists_reaches_a {α : Type} {w : Crew α} {good : Crew α → Prop}
    (hi : w.members[0]? = some processA)
    (h : ∀ past rest, ∃ w', Crew.Reaches { w with
      members := w.members.set 0 { processA with group := 7, past, rest, replaced := true } } w' ∧
        good w') :
    ∃ w', w.Reaches w' ∧ good w' := by
  obtain ⟨r, hjoin, hset⟩ := steps_stageProcess_a.cons_inv
  have hlt : 0 < w.members.length := (List.getElem?_eq_some_iff.mp hi).1
  refine Crew.exists_reaches (.child hi rfl rfl hjoin (.moved ⟨hi, rfl, .inl rfl⟩
    ⟨rfl, .inl rfl⟩) (List.getElem?_set_self hlt)) ?_
  refine Crew.exists_reaches_child (i := 0) (List.getElem?_set_self (by simpa using hlt)) rfl rfl
    hset (steps_stageProcess steps_stageProcess_a).2 fun rest hrest => ?_
  refine Crew.exists_reaches (.replaced (i := 0) (List.getElem?_set_self (by simpa using hlt)) rfl
    rfl hrest request?_afterSetUp_a) ?_
  simp only [List.set_set]
  exact h _ rest

/-- The first stage becomes its program before the shell has asked for its group, and the shell is
refused; the second stage is put into the group before it has made any step. -/
theorem stages_share_group_founder_replaced :
    ∃ w, Crew.Reaches (.start 1 (startPipeline aToB plainContext)) w ∧
      Event.call (.setGroup 7 7) (.error .access) ∈ w.past ∧
      w.members.map Member.replaced = [true, false] ∧
      ∃ p' ctx', Runs (startPipeline aToB plainContext) w.past (.ok (.group 7), p', ctx') ∧
        (∀ q ∈ w.members, q.group = 7) ∧ p'.stages.map Stage.pid = [some 7, some 8] := by
  obtain ⟨w, hreach, hpast, hreplaced, hpids, p', ctx', hrun⟩ :
      ∃ w, Crew.Reaches (.start 1 (startPipeline aToB plainContext)) w ∧
        Event.call (.setGroup 7 7) (.error .access) ∈ w.past ∧
        w.members.map Member.replaced = [true, false] ∧
        w.members.map Member.pid = [7, 8] ∧
        ∃ p' ctx', Runs (startPipeline aToB plainContext) w.past (.ok (.group 7), p', ctx') := by
    refine Crew.exists_reaches (.shell (.loop (.call (Except.ok (3, 4)) (.refl _))) (.other id)
      (by simp [Event.enlisted])) ?_
    refine Crew.exists_reaches (.shell (.fork (.ok 7) (.refl _)) (.other id)
      (by simp [Event.enlisted, Crew.start])) ?_
    refine Crew.exists_reaches_a rfl fun past rest => ?_
    refine Crew.exists_reaches (.shell (.call (Except.error .access) (.refl _))
      (.refused (i := 0) .access ⟨rfl, rfl⟩ (by rintro ⟨h, -⟩; cases h))
      (by simp [Event.enlisted])) ?_
    refine Crew.exists_reaches (.shell (.fork (.ok 8) (.refl _)) (.other id)
      (by simp [Event.enlisted, Crew.start, processA])) ?_
    refine Crew.exists_reaches (.shell (.call (Except.ok ()) (.refl _))
      (.moved (i := 1) ⟨rfl, rfl⟩ ⟨rfl, .inr (.inr ⟨_, List.mem_cons_self, rfl⟩)⟩)
      (by simp [Event.enlisted])) ?_
    refine Crew.exists_reaches (.shell (.call (Except.ok ()) (.refl _)) (.other id)
      (by simp [Event.enlisted])) ?_
    refine Crew.exists_reaches (.shell (.call (Except.ok ()) (.refl _)) (.other id)
      (by simp [Event.enlisted])) ?_
    refine ⟨_, .refl, ?_, rfl, rfl, { aToB with
      stages := [{ stageA with pid := some 7 }, { stageB with pid := some 8 }]
      group := some 7 }, plainContext, ?_⟩
    · show _ ∈ [_, _, Event.call (.setGroup 7 7) (.error .access), _, _, _, _]
      simp
    · refine .loop (.call (Except.ok (3, 4)) (.fork (.ok 7) ?_))
      refine .call (Except.error Errno.access : Except Errno Unit) ?_
      refine .fork (.ok 8) (.call (Except.ok ()) (.call (Except.ok ()) ?_))
      exact .call (Except.ok ()) (.refl _)
  obtain ⟨-, -, hstarted⟩ := stages_share_group hreach
  obtain ⟨-, -, hgroup, -, hstages⟩ := hstarted 7 p' ctx' hrun
  have hmap : (w.members.map fun q => some q.pid) = (w.members.map Member.pid).map some := by
    rw [List.map_map]
    rfl
  exact ⟨w, hreach, hpast, hreplaced, p', ctx', hrun, hgroup, by rw [hstages, hmap, hpids]; rfl⟩

end JobShell
