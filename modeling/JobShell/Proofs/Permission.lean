import JobShell.Proofs.Foreground

/-!
The permission to move the foreground, over the life of a handle. Other processes may move the
foreground at any time, also between the two calls that the shell makes, and every call may
fail. What the handle remembers is the one thing of its past that a later request can turn on:
whether the shell has ever made its own group the foreground group.
-/
namespace JobShell

open Program

/-- The foreground group after an event, others having moved it to any group right before. -/
def Contended (_ : Pid) (e : Event) (g' : Pid) : Prop := ∃ g, Foreground False g e g'

theorem Leads.contended {t : List Event} {fg fg' : Pid} (h : Leads (Foreground False) fg t fg') :
    Leads Contended fg t fg' := by
  induction h with
  | nil => exact .nil
  | cons he _ ih => exact .cons ⟨_, he⟩ ih

/-- The group that an event reports to be in the foreground. -/
def Event.reports : Event → Option Pid
  | .call (.foreground _) answer => answer.toOption
  | _ => none

/-- The terminal reported `g` to be in the foreground. -/
def Reported (g : Pid) (t : List Event) : Prop := some g ∈ t.map Event.reports

section

variable {fd : Fd} {g : Pid} {t : List Event}

@[simp] theorem not_reported_nil : ¬ Reported g [] := by simp [Reported]

@[simp] theorem reported_foreground_ok {seen : Pid} :
    Reported g (.call (.foreground fd) (.ok seen) :: t) ↔ g = seen ∨ Reported g t := by
  simp [Reported, Event.reports, Except.toOption]

@[simp] theorem reported_foreground_error {e : Errno} :
    Reported g (.call (.foreground fd) (.error e) :: t) ↔ Reported g t := by
  simp [Reported, Event.reports, Except.toOption]

@[simp] theorem reported_setForeground {group : Pid} {answer : Except Errno Unit} :
    Reported g (.call (.setForeground fd group) answer :: t) ↔ Reported g t := by
  simp [Reported, Event.reports]

end

/-- What happens in the life of a handle: others move the foreground, or the handle is asked to. -/
inductive Happening : Type 1 where
  | moved (fg : Pid)
  | asked (group : Option Pid) (exchanges : List Event) (result : Except ShellError Unit)

/-- The shell has made its own group the foreground group. -/
def Earned (past : List Happening) : Prop := ∃ t, Happening.asked none t (.ok ()) ∈ past

/-- Some request of the past has been granted. -/
def Granted (past : List Happening) : Prop := ∃ group t, Happening.asked group t (.ok ()) ∈ past

theorem Earned.granted {past : List Happening} (h : Earned past) : Granted past := by
  obtain ⟨t, ht⟩ := h
  exact ⟨none, t, ht⟩

namespace Terminal

/-- A handle as the shell gets it, whether or not there is a terminal to control. -/
def Made (made : Terminal) : Prop :=
  ∃ t, Runs Terminal.openControlling t made ∨ Runs Terminal.detached t made

/-- The handle and the foreground group behind all that has happened since the handle was made. -/
inductive Life (made : Terminal) : List Happening → Terminal → Pid → Prop
  | new {fg : Pid} : made.Made → Life made [] made fg
  | moved {past : List Happening} {handle : Terminal} {fg : Pid} (fg' : Pid) :
      Life made past handle fg → Life made (past ++ [.moved fg']) handle fg'
  | asked {past : List Happening} {handle handle' : Terminal} {fg fg' : Pid} {t : List Event}
      {group : Option Pid} {result : Except ShellError Unit} : Life made past handle fg →
      Runs (handle.setForeground group) t (result, handle') → Leads Contended fg t fg' →
      Life made (past ++ [.asked group t result]) handle' fg'

theorem Made.owns {made : Terminal} (h : made.Made) : made.ownsForeground = false := by
  obtain ⟨t, h | h⟩ := h
  · exact openControlling_owns h
  · simp only [Terminal.detached, bind_eq, pure_eq, runs_bind, runs_ask] at h
    obtain ⟨_, _, shellGroup, -, -, h⟩ := h
    obtain ⟨-, rfl⟩ := runs_done.mp h
    rfl

section

variable {handle handle' : Terminal} {group : Option Pid} {t : List Event}
  {result : Except ShellError Unit}

/-- Whatever comes of it, a request changes nothing of the handle but what it remembers, and
that only if the shell is granted its own group. -/
theorem Sets.handle_eq (h : handle.Sets group t result handle') :
    handle'.fd = handle.fd ∧ handle'.shellGroup = handle.shellGroup ∧
      (handle'.ownsForeground = true ↔
        handle.ownsForeground = true ∨ group = none ∧ result = .ok ()) := by
  cases h with
  | uncontrolled _ | unreadable _ | refused _ _ _ | failed _ _ => simp
  | moved _ _ => simp

/-- A request that fails hands the terminal to nobody and leaves the handle as it is. -/
theorem Sets.of_error {e : ShellError} (h : handle.Sets group t (.error e) handle') :
    handle' = handle ∧ ∀ g, ¬ Handed g t := by
  cases h with
  | uncontrolled _ | unreadable _ | refused _ _ _ | failed _ _ =>
    exact ⟨rfl, by simp [Handed, Event.handsTo]⟩

/-- A request that is granted hands the terminal, with its last call, to the group asked for. -/
theorem Sets.of_ok (h : handle.Sets group t (.ok ()) handle') :
    ∃ fd seen, t = [.call (.foreground fd) (.ok seen),
      .call (.setForeground fd (group.getD handle.shellGroup)) (.ok ())] := by
  cases h with
  | moved _ _ => exact ⟨_, _, rfl⟩

/-- With the permission, what the kernel says to the change is what comes of the request. -/
theorem Sets.of_owns {seen : Pid} (h : handle.Sets group t result handle')
    (hseen : Reported seen t) (howns : handle.ownsForeground = true) :
    ∃ fd answer, handle.fd = some fd ∧ result = answer.mapError .terminal ∧
      t = [.call (.foreground fd) (.ok seen),
        .call (.setForeground fd (group.getD handle.shellGroup)) answer] := by
  cases h with
  | uncontrolled _ | unreadable _ => simp at hseen
  | refused _ _ hnot => simp [howns] at hnot
  | failed hfd _ | moved hfd _ =>
    simp only [reported_foreground_ok, reported_setForeground, not_reported_nil, or_false] at hseen
    subst hseen
    exact ⟨_, _, hfd, rfl, rfl⟩

/-- Without it, a shell behind another group is refused before it touches the terminal. -/
theorem Sets.of_behind {seen : Pid} (h : handle.Sets group t result handle')
    (hseen : Reported seen t) (howns : handle.ownsForeground = false)
    (hne : seen ≠ handle.shellGroup) :
    ∃ fd, handle.fd = some fd ∧ result = .error (.terminal .perm) ∧
      t = [.call (.foreground fd) (.ok seen)] := by
  cases h with
  | uncontrolled _ | unreadable _ => simp at hseen
  | refused hfd _ _ =>
    simp only [reported_foreground_ok, not_reported_nil, or_false] at hseen
    subst hseen
    exact ⟨_, hfd, rfl, rfl⟩
  | failed _ hmay | moved _ hmay =>
    simp only [reported_foreground_ok, reported_setForeground, not_reported_nil, or_false] at hseen
    subst hseen
    simp [hne, howns] at hmay

/-- A shell that is in the foreground or has the permission gets whatever the kernel says. -/
theorem exists_runs_of_may {fd : Fd} {seen : Pid} (hfd : handle.fd = some fd)
    (hmay : seen = handle.shellGroup ∨ handle.ownsForeground = true) (group : Option Pid)
    (answer : Except Errno Unit) : ∃ handle', Runs (handle.setForeground group)
      [.call (.foreground fd) (.ok seen),
        .call (.setForeground fd (group.getD handle.shellGroup)) answer]
      (answer.mapError .terminal, handle') := by
  cases answer with
  | error e => exact ⟨_, (Sets.failed hfd hmay).runs⟩
  | ok value => exact ⟨_, (Sets.moved hfd hmay).runs⟩

theorem Sets.of_not_reported (h : handle.Sets group t result handle')
    (howns : handle.ownsForeground = false) (hbehind : ¬ Reported handle.shellGroup t) :
    ∃ e, result = .error e := by
  cases h with
  | uncontrolled _ | unreadable _ | refused _ _ _ | failed _ _ => exact ⟨_, rfl⟩
  | moved _ hmay =>
    have hfront := hmay.resolve_right (by simp [howns])
    exact absurd (by simp [hfront]) hbehind

end

section

variable {made handle : Terminal} {past : List Happening} {fg : Pid}

theorem Life.same_terminal (h : Life made past handle fg) :
    handle.fd = made.fd ∧ handle.shellGroup = made.shellGroup := by
  induction h with
  | new _ => exact ⟨rfl, rfl⟩
  | moved _ _ ih => exact ih
  | asked _ h _ ih =>
    obtain ⟨hfd, hgroup, -⟩ := (sets_of_runs h).handle_eq
    exact ⟨hfd.trans ih.1, hgroup.trans ih.2⟩

/-- The flag of the handle is its whole past, as far as permission goes. -/
theorem Life.owns_iff (h : Life made past handle fg) :
    handle.ownsForeground = true ↔ Earned past := by
  induction h with
  | new h => simp [h.owns, Earned]
  | moved fg' _ ih => simpa [Earned] using ih
  | @asked past _ _ _ _ t group result _ h _ ih =>
    have hearned : Earned (past ++ [.asked group t result]) ↔
        Earned past ∨ group = none ∧ result = .ok () := by
      simp [Earned, exists_or, eq_comm]
    rw [(sets_of_runs h).handle_eq.2.2, ih, hearned]

theorem Life.not_owns (h : Life made past handle fg) (hg : ¬ Granted past) :
    handle.ownsForeground = false := by
  rw [← Bool.not_eq_true, h.owns_iff]
  exact fun hearned => hg hearned.granted

/-- A shell that finds another group in the foreground whenever it asks is never granted
anything and never takes the terminal away. -/
theorem Life.behind (h : Life made past handle fg)
    (hbehind : ∀ group t result, Happening.asked group t result ∈ past →
      ¬ Reported made.shellGroup t) :
    ∀ group t result, Happening.asked group t result ∈ past →
      (∃ e, result = .error e) ∧ ∀ g, ¬ Handed g t := by
  induction h with
  | new _ => simp
  | moved fg' _ ih => simpa using ih (by simpa using hbehind)
  | @asked past handle _ _ _ t group result hlife h _ ih =>
    simp only [List.mem_append, or_imp, forall_and] at hbehind
    have hpast := ih hbehind.1
    have hnow : ¬ Reported made.shellGroup t := hbehind.2 group t result (by simp)
    have hsets := sets_of_runs h
    have hnone : ¬ Granted past := by
      rintro ⟨group, t, hmem⟩
      obtain ⟨⟨e, he⟩, -⟩ := hpast group t _ hmem
      cases he
    have hrefused : ∃ e, result = .error e :=
      hsets.of_not_reported (hlife.not_owns hnone) (hlife.same_terminal.2 ▸ hnow)
    intro group' t' result' hmem
    obtain hmem | hmem := List.mem_append.mp hmem
    · exact hpast group' t' result' hmem
    · obtain ⟨rfl, rfl, rfl⟩ : group' = group ∧ t' = t ∧ result' = result := by simpa using hmem
      obtain ⟨e, rfl⟩ := hrefused
      exact ⟨⟨e, rfl⟩, hsets.of_error.2⟩

/-- A request for the foreground does all of what it should or nothing, and the permission once
earned is kept. Behind any past, a request that fails leaves the handle and the foreground as they
were, and one that is granted makes the group that was asked for the foreground group. Without a
terminal it fails. If the shell has once taken the foreground for itself, only the kernel can
refuse it. If nothing has been granted yet and another group is seen in the foreground, the
request is refused and the terminal not touched, so that a shell kept in the background never
takes the terminal away. Whatever the kernel answers, the request comes to its end. -/
theorem permission_kept (h : Life made past handle fg) :
    (∀ group t result handle' fg', Runs (handle.setForeground group) t (result, handle') →
      Leads Contended fg t fg' →
      (∀ e, result = .error e → handle' = handle ∧ (∀ g, ¬ Handed g t) ∧
        (Leads (Foreground False) fg t fg' → fg' = fg)) ∧
      (result = .ok () → fg' = group.getD made.shellGroup ∧
        ∀ g, Handed g t → g = group.getD made.shellGroup) ∧
      (made.fd = none → result = .error (.terminal .notTerminal) ∧ t = []) ∧
      ∀ seen, Reported seen t →
        (Earned past → ∃ fd answer, made.fd = some fd ∧ result = answer.mapError .terminal ∧
          t = [.call (.foreground fd) (.ok seen),
            .call (.setForeground fd (group.getD made.shellGroup)) answer]) ∧
        (¬ Granted past → seen ≠ made.shellGroup → ∃ fd, made.fd = some fd ∧
          result = .error (.terminal .perm) ∧ t = [.call (.foreground fd) (.ok seen)])) ∧
    (∀ group,
      (made.fd = none →
        handle.setForeground group = done (.error (.terminal .notTerminal), handle)) ∧
      ∀ fd, made.fd = some fd →
        (∀ e, Runs (handle.setForeground group) [.call (.foreground fd) (.error e)]
          (.error (.terminal e), handle)) ∧
        ∀ seen,
          (Earned past ∨ seen = made.shellGroup → ∀ answer, ∃ handle',
            Runs (handle.setForeground group) [.call (.foreground fd) (.ok seen),
              .call (.setForeground fd (group.getD made.shellGroup)) answer]
              (answer.mapError .terminal, handle')) ∧
          (¬ Earned past → seen ≠ made.shellGroup → Runs (handle.setForeground group)
            [.call (.foreground fd) (.ok seen)] (.error (.terminal .perm), handle))) ∧
    ((∀ group t result, Happening.asked group t result ∈ past → ¬ Reported made.shellGroup t) →
      ∀ group t result, Happening.asked group t result ∈ past → ∀ g, ¬ Handed g t) := by
  obtain ⟨hfd, hgroup⟩ := h.same_terminal
  rw [← hfd, ← hgroup]
  refine ⟨?_, ?_, ?_⟩
  · intro group t result handle' fg' hrun hl
    have hsets := sets_of_runs hrun
    refine ⟨?failing, ?granted, ?uncontrolled, fun seen hseen => ⟨?earned, ?behind⟩⟩
    case failing =>
      rintro e rfl
      refine ⟨hsets.of_error.1, hsets.of_error.2, fun hquiet => ?_⟩
      obtain ⟨-, -, hsame, -⟩ | ⟨hok, -⟩ := runs_setForeground hrun hquiet
      · exact hsame
      · cases hok
    case granted =>
      rintro rfl
      obtain ⟨fd, seen, rfl⟩ := hsets.of_ok
      constructor
      · -- what others did before the last call is past
        obtain ⟨fg₁, -, fg₂, ⟨_, hmoved⟩, hend⟩ := by simpa only [leads_cons] using hl
        obtain rfl := leads_nil.mp hend
        exact hmoved
      · intro g hg
        simpa [Handed, Event.handsTo] using hg
    case uncontrolled =>
      intro hnone
      cases hsets with
      | uncontrolled _ => exact ⟨rfl, rfl⟩
      | unreadable hsome | refused hsome _ _ | failed hsome _ | moved hsome _ =>
        simp [hnone] at hsome
    case earned => exact fun hearned => hsets.of_owns hseen (h.owns_iff.mpr hearned)
    case behind => exact fun hnone hne => hsets.of_behind hseen (h.not_owns hnone) hne
  · intro group
    refine ⟨fun hnone => ?_, fun fd hsome => ⟨fun e => (Sets.unreadable hsome).runs,
      fun seen => ⟨fun hmay answer => ?_, fun hnot hne => ?_⟩⟩⟩
    · simp only [Terminal.setForeground, hnone, pure_eq]
    · exact exists_runs_of_may hsome (hmay.symm.imp_right h.owns_iff.mpr) group answer
    · exact (Sets.refused hsome hne (by simpa [← h.owns_iff] using hnot)).runs
  · intro hbehind group t result hmem
    rw [hgroup] at hbehind
    exact (h.behind hbehind group t result hmem).2

/-- A shell of group 100 is started in the background and denied the foreground. Others bring it
there, it takes the foreground for itself, and others move it to group 50. Then it still lends
the terminal to group 200, if the kernel agrees. -/
theorem permission_kept_behind_others :
    let past : List Happening :=
      [.asked none [.call (.foreground 3) (.ok 50)] (.error (.terminal .perm)), .moved 100,
        .asked none [.call (.foreground 3) (.ok 100), .call (.setForeground 3 100) (.ok ())]
          (.ok ()), .moved 50]
    Life ⟨some 3, 100, false⟩ past ⟨some 3, 100, true⟩ 50 ∧
    ∀ result t handle' fg',
      Runs (setForeground ⟨some 3, 100, true⟩ (some 200)) t (result, handle') →
      Leads Contended 50 t fg' → Reported 50 t → ∃ answer, result = answer.mapError .terminal ∧
        t = [.call (.foreground 3) (.ok 50), .call (.setForeground 3 200) answer] := by
  intro past
  have hlife : Life ⟨some 3, 100, false⟩ past ⟨some 3, 100, true⟩ 50 :=
    .moved 50 (.asked (.moved 100 (.asked (.new ⟨_, .inl (runs_openControlling_tty 100 3)⟩)
      (runs_denied (by decide) none) leads_denied.contended)) (runs_granted (.inl rfl) none)
      (leads_granted 100).contended)
  have hearned : Earned past := ⟨[.call (.foreground 3) (.ok 100),
    .call (.setForeground 3 100) (.ok ())], by simp [past]⟩
  refine ⟨hlife, fun result t handle' fg' hrun hl hseen => ?_⟩
  obtain ⟨-, -, -, hreported⟩ := (permission_kept hlife).1 _ _ _ _ _ hrun hl
  obtain ⟨fd, answer, hfd, hrest⟩ := (hreported 50 hseen).1 hearned
  obtain rfl : 3 = fd := Option.some.inj hfd
  exact ⟨answer, hrest⟩

end

end Terminal

end JobShell
