import JobShell.Proofs.Reached
import JobShell.Proofs.Requests

/-!
The foreground of the terminal. The terminal has one foreground group, which others may
move too; the handle remembers only whether the shell has once taken the foreground for
itself. What the shell lends it gets back exactly if it had taken it so before, which a
shell that merely found itself in the foreground has not.
-/
namespace JobShell

open Program

/-- The foreground group after an event, `g` being the one before. The terminal tells the
truth. If `others` is true, anyone may move the foreground while the shell waits. -/
def Foreground (others : Prop) (g : Pid) : Event → Pid → Prop
  | .call (.foreground _) answer, g' => g' = g ∧ ∀ seen, answer = .ok seen → seen = g
  | .call (.setForeground _ new) answer, g' => g' = match answer with
    | .ok () => new
    | .error _ => g
  | .call (.wait _ _) _, g' => others ∨ g' = g
  | _, g' => g' = g

/-- The terminal can be asked, and it accepts the shell's own group. -/
def Event.Accepts (shellGroup : Pid) : Event → Prop
  | .call (.foreground _) answer => ∃ g, answer = .ok g
  | .call (.setForeground _ g) answer => g = shellGroup → answer = .ok ()
  | _ => True

/-- The group to which an event gives the terminal. -/
def Event.handsTo : Event → Option Pid
  | .call (.setForeground _ g) answer => match answer with
    | .ok () => some g
    | .error _ => none
  | _ => none

/-- The terminal was given to `g`. -/
def Handed (g : Pid) (t : List Event) : Prop := some g ∈ t.map Event.handsTo

def Request.OnForeground : Request → Prop
  | .call (.foreground _) | .call (.setForeground _ _) => True
  | _ => False

def Request.IsWait : Request → Prop
  | .call (.wait _ _) => True
  | _ => False

/-- A request for the foreground and its outcome. -/
structure Asked where
  group : Option Pid
  result : Except ShellError Unit

/-- The handle and the foreground group that the requests `past` have led to, from the
opening of the terminal on, with any changes from outside in between. -/
inductive Course : List Asked → Terminal → Pid → Prop
  | opened {t : List Event} {handle : Terminal} {fg : Pid} :
      Runs Terminal.openControlling t handle → Course [] handle fg
  | asked {past : List Asked} {handle handle' : Terminal} {fg fg' : Pid} {t : List Event}
      {group : Option Pid} {result : Except ShellError Unit} :
      Course past handle fg → Runs (handle.setForeground group) t (result, handle') →
      Leads (Foreground False) fg t fg' → Course (past ++ [⟨group, result⟩]) handle' fg'
  | outside {past : List Asked} {handle : Terminal} {fg : Pid} (fg' : Pid) :
      Course past handle fg → Course past handle fg'

/-- The shell has taken the foreground for itself before. -/
def Took (past : List Asked) : Prop := ∃ asked ∈ past, asked.group = none ∧ asked.result = .ok ()

/-- What the handle does with a request for the foreground: the exchanges it makes, the result
and what the handle is behind it. -/
inductive Terminal.Sets (handle : Terminal) (group : Option Pid) :
    List Event → Except ShellError Unit → Terminal → Prop
  | uncontrolled : handle.fd = none →
      handle.Sets group [] (.error (.terminal .notTerminal)) handle
  | unreadable {fd : Fd} {e : Errno} : handle.fd = some fd →
      handle.Sets group [.call (.foreground fd) (.error e)] (.error (.terminal e)) handle
  | refused {fd : Fd} {seen : Pid} : handle.fd = some fd → seen ≠ handle.shellGroup →
      handle.ownsForeground = false →
      handle.Sets group [.call (.foreground fd) (.ok seen)] (.error (.terminal .perm)) handle
  | failed {fd : Fd} {seen : Pid} {e : Errno} : handle.fd = some fd →
      seen = handle.shellGroup ∨ handle.ownsForeground = true →
      handle.Sets group [.call (.foreground fd) (.ok seen),
        .call (.setForeground fd (group.getD handle.shellGroup)) (.error e)]
        (.error (.terminal e)) handle
  | moved {fd : Fd} {seen : Pid} : handle.fd = some fd →
      seen = handle.shellGroup ∨ handle.ownsForeground = true →
      handle.Sets group [.call (.foreground fd) (.ok seen),
        .call (.setForeground fd (group.getD handle.shellGroup)) (.ok ())]
        (.ok ()) { handle with ownsForeground := handle.ownsForeground || group.isNone }

theorem Terminal.sets_of_runs {handle handle' : Terminal} {group : Option Pid} {t : List Event}
    {result : Except ShellError Unit}
    (h : Runs (handle.setForeground group) t (result, handle')) :
    handle.Sets group t result handle' := by
  unfold Terminal.setForeground at h
  split at h
  · rename_i hfd
    obtain ⟨rfl, rfl, rfl⟩ := runs_done_pair.mp h
    exact .uncontrolled hfd
  · rename_i fd hfd
    simp only [bind_eq, pure_eq, runs_bind, runs_ask] at h
    obtain ⟨_, t₂, seen, rfl, rfl, h⟩ := h
    cases seen with
    | error e =>
      obtain ⟨rfl, rfl, rfl⟩ := runs_done_pair.mp h
      exact .unreadable hfd
    | ok seen =>
      dsimp only at h
      split at h
      · rename_i hdenied
        obtain ⟨rfl, rfl, rfl⟩ := runs_done_pair.mp h
        exact .refused hfd hdenied.1 hdenied.2
      · rename_i hmay
        have hmay : seen = handle.shellGroup ∨ handle.ownsForeground = true := by
          by_cases hc : seen = handle.shellGroup
          · exact .inl hc
          · exact .inr (by simpa [hc] using hmay)
        simp only [runs_bind, runs_ask] at h
        obtain ⟨_, t₃, answer, rfl, rfl, h⟩ := h
        cases answer with
        | error e =>
          obtain ⟨rfl, rfl, rfl⟩ := runs_done_pair.mp h
          exact .failed hfd hmay
        | ok value =>
          obtain ⟨rfl, rfl, rfl⟩ := runs_done_pair.mp h
          exact .moved hfd hmay

/-- Whatever the kernel says, the request comes to its end. -/
theorem Terminal.Sets.runs {handle handle' : Terminal} {group : Option Pid} {t : List Event}
    {result : Except ShellError Unit} (h : handle.Sets group t result handle') :
    Runs (handle.setForeground group) t (result, handle') := by
  unfold Terminal.setForeground
  cases h with
  | uncontrolled hfd =>
    simp only [hfd]
    exact .refl _
  | unreadable hfd =>
    simp only [hfd]
    exact .call _ (.refl _)
  | refused hfd hne howns =>
    simp only [hfd]
    refine .call _ ?_
    simp only [done_bind, if_pos (And.intro hne howns)]
    exact .refl _
  | failed hfd hmay | moved hfd hmay =>
    simp only [hfd]
    refine .call _ ?_
    rw [done_bind]
    dsimp only
    rw [if_neg (by simpa [Classical.or_iff_not_imp_left] using hmay)]
    exact .call _ (.refl _)

/-- A request for the foreground is refused, and everything stays as it is, or it is
granted. It is granted only to a shell that is in the foreground or has once taken it, and
always to such a shell if the terminal accepts the group. -/
theorem runs_setForeground {handle handle' : Terminal} {group : Option Pid} {t : List Event}
    {result : Except ShellError Unit} {others : Prop} {fg fg' : Pid}
    (h : Runs (handle.setForeground group) t (result, handle'))
    (hl : Leads (Foreground others) fg t fg') :
    ((∃ e, result = .error e) ∧ handle' = handle ∧ fg' = fg ∧ (∀ g, ¬ Handed g t) ∧
      (handle.fd.isSome = true → group = none → (∀ e ∈ t, e.Accepts handle.shellGroup) →
        result = .error (.terminal .perm) ∧ fg ≠ handle.shellGroup ∧
          handle.ownsForeground = false)) ∨
    (result = .ok () ∧ (fg = handle.shellGroup ∨ handle.ownsForeground = true) ∧
      handle.fd.isSome = true ∧
      handle' = { handle with ownsForeground := handle.ownsForeground || group.isNone } ∧
      fg' = group.getD handle.shellGroup) := by
  cases Terminal.sets_of_runs h with
  | uncontrolled hfd =>
    exact .inl ⟨⟨_, rfl⟩, rfl, leads_nil.mp hl, by simp [Handed], by simp [hfd]⟩
  | unreadable hfd =>
    obtain ⟨fg₁, ⟨rfl, -⟩, hrest⟩ := leads_cons.mp hl
    exact .inl ⟨⟨_, rfl⟩, rfl, leads_nil.mp hrest, by simp [Handed, Event.handsTo],
      by simp [Event.Accepts]⟩
  | refused hfd hne howns =>
    obtain ⟨fg₁, ⟨rfl, hseen⟩, hrest⟩ := leads_cons.mp hl
    obtain rfl := hseen _ rfl
    exact .inl ⟨⟨_, rfl⟩, rfl, leads_nil.mp hrest, by simp [Handed, Event.handsTo],
      fun _ _ _ => ⟨rfl, hne, howns⟩⟩
  | failed hfd hmay =>
    obtain ⟨fg₁, ⟨rfl, -⟩, fg₂, hmoved, hrest⟩ := by simpa only [leads_cons] using hl
    obtain rfl := leads_nil.mp hrest
    exact .inl ⟨⟨_, rfl⟩, rfl, hmoved, by simp [Handed, Event.handsTo],
      by simp +contextual [Event.Accepts]⟩
  | moved hfd hmay =>
    obtain ⟨fg₁, ⟨rfl, hseen⟩, fg₂, hmoved, hrest⟩ := by simpa only [leads_cons] using hl
    obtain rfl := hseen _ rfl
    obtain rfl := leads_nil.mp hrest
    exact .inr ⟨rfl, hmay, by simp [hfd], rfl, hmoved⟩

section

variable {fd : Fd} {shellGroup fg : Pid} {owns : Bool}

/-- A shell that may move the foreground moves it, if the terminal agrees. -/
theorem runs_granted (h : fg = shellGroup ∨ owns = true) (group : Option Pid) :
    Runs (Terminal.setForeground ⟨some fd, shellGroup, owns⟩ group)
      [.call (.foreground fd) (.ok fg),
        .call (.setForeground fd (group.getD shellGroup)) (.ok ())]
      (.ok (), ⟨some fd, shellGroup, owns || group.isNone⟩) :=
  (Terminal.Sets.moved rfl h).runs

theorem leads_granted (group : Pid) :
    Leads (Foreground False) fg
      [.call (.foreground fd) (.ok fg), .call (.setForeground fd group) (.ok ())] group :=
  .cons ⟨rfl, by simp⟩ (.cons rfl .nil)

/-- A shell that has never taken the foreground may not take it from another group. -/
theorem runs_denied (h : fg ≠ shellGroup) (group : Option Pid) :
    Runs (Terminal.setForeground ⟨some fd, shellGroup, false⟩ group)
      [.call (.foreground fd) (.ok fg)]
      (.error (.terminal .perm), ⟨some fd, shellGroup, false⟩) :=
  (Terminal.Sets.refused rfl h rfl).runs

theorem leads_denied :
    Leads (Foreground False) fg [.call (.foreground fd) (.ok fg)] fg :=
  .cons ⟨rfl, by simp⟩ .nil

end

theorem runs_openControlling_tty (shellGroup : Pid) (fd : Fd) :
    Runs Terminal.openControlling [.call .groupId shellGroup,
      .call (.openFile "/dev/tty" { access := .readWrite, closeOnExec := true } 0) (.ok fd)]
      ⟨some fd, shellGroup, false⟩ :=
  .call _ (.call _ (.refl _))

theorem openControlling_owns {t : List Event} {handle : Terminal}
    (h : Runs Terminal.openControlling t handle) : handle.ownsForeground = false := by
  simp only [Terminal.openControlling, bind_eq, pure_eq, runs_bind, runs_ask] at h
  obtain ⟨_, _, shellGroup, rfl, rfl, _, _, opened, rfl, rfl, h⟩ := h
  cases opened with
  | ok fd =>
    obtain ⟨-, rfl⟩ := runs_done.mp h
    rfl
  | error e =>
    obtain ⟨-, rfl⟩ := runs_done.mp h
    rfl

/-- What the handle remembers is whether the shell has taken the foreground for itself. -/
theorem Course.owns_iff {past : List Asked} {handle : Terminal} {fg : Pid}
    (h : Course past handle fg) : handle.ownsForeground = true ↔ Took past := by
  induction h with
  | opened h => simp [openControlling_owns h, Took]
  | @asked past handle handle' fg fg' t group result _ h hl ih =>
    have htook : Took (past ++ [⟨group, result⟩]) ↔
        Took past ∨ group = none ∧ result = .ok () := by
      simp only [Took, List.mem_append, List.mem_singleton, or_and_right, exists_or,
        exists_eq_left]
    rw [htook]
    obtain ⟨⟨e, rfl⟩, rfl, -, -, -⟩ | ⟨rfl, -, -, rfl, -⟩ := runs_setForeground h hl
    · simp [ih]
    · simp [ih]
  | outside fg' _ ih => exact ih

/-- Taking the foreground succeeds exactly for a shell that has taken it before or is in it. -/
theorem takes_iff {handle handle' : Terminal} {t : List Event} {result : Except ShellError Unit}
    {others : Prop} {fg fg' : Pid} (h : Runs (handle.setForeground none) t (result, handle'))
    (hl : Leads (Foreground others) fg t fg') (hfd : handle.fd.isSome = true)
    (hk : ∀ e ∈ t, e.Accepts handle.shellGroup) :
    (result = .ok () ∧ fg' = handle.shellGroup ↔
      handle.ownsForeground = true ∨ fg = handle.shellGroup) ∧
    (¬ (handle.ownsForeground = true ∨ fg = handle.shellGroup) →
      result = .error (.terminal .perm) ∧ fg' = fg) := by
  obtain ⟨-, -, rfl, -, hdenied⟩ | ⟨rfl, hmay, -, -, rfl⟩ := runs_setForeground h hl
  · obtain ⟨rfl, hne, howns⟩ := hdenied hfd rfl hk
    simp [hne, howns]
  · simp [hmay.symm]

/-- Exchanges that are neither about the foreground nor waits leave it where it is. -/
theorem Leads.foreground_eq {others : Prop} {t : List Event} {fg fg' : Pid}
    (hl : Leads (Foreground others) fg t fg')
    (h : ∀ e ∈ t, ¬ e.request.OnForeground ∧ ¬ e.request.IsWait) : fg' = fg := by
  refine hl.unchanged fun e he fg₁ hstep => ?_
  obtain ⟨hf, hw⟩ := h e he
  unfold Foreground at hstep
  split at hstep
  · exact absurd trivial hf
  · exact absurd trivial hf
  · exact absurd trivial hw
  · exact hstep

theorem not_handed {t : List Event} (g : Pid) (h : ∀ e ∈ t, ¬ e.request.OnForeground) :
    ¬ Handed g t := by
  intro hg
  obtain ⟨e, he, hto⟩ := List.mem_map.mp hg
  unfold Event.handsTo at hto
  split at hto
  · exact h _ he trivial
  · cases hto

theorem Notice.events {t : List Event} (h : Notice t) :
    ∀ e ∈ t, ¬ e.request.OnForeground ∧ ¬ e.request.IsWait := by
  intro e he
  obtain ⟨data, answer, rfl⟩ := h e he
  exact ⟨id, id⟩

/-- Lending succeeds exactly if the terminal is handed over, and then no wait was made. -/
theorem lend_handed {pgid : Pid} {ctx ctx' : Context} {t : List Event} {handed : Bool}
    {others : Prop} {fg fg' : Pid} (h : Runs (lend pgid ctx) t (handed, ctx'))
    (hl : Leads (Foreground others) fg t fg') :
    (handed = false ∧ ∀ g, ¬ Handed g t) ∨
    (handed = true ∧ ctx'.terminal = ctx.terminal ∧ ctx.terminal.fd.isSome = true ∧
      fg' = pgid) := by
  obtain ⟨t₁, t₂, result, terminal, rfl, hs, rfl, hcase⟩ := runs_lend h
  obtain ⟨fg₁, hl₁, hl₂⟩ := leads_append.mp hl
  obtain ⟨rfl, rfl, rfl⟩ | ⟨rfl, ⟨e, rfl⟩, hrelay⟩ := hcase
  · obtain rfl := leads_nil.mp hl₂
    obtain ⟨⟨e, he⟩, -⟩ | ⟨-, -, hfd, rfl, rfl⟩ := runs_setForeground hs hl₁
    · cases he
    · exact .inr ⟨rfl, by simp, hfd, rfl⟩
  · refine .inl ⟨rfl, fun g => ?_⟩
    obtain ⟨-, -, -, hno, -⟩ | ⟨he, -⟩ := runs_setForeground hs hl₁
    · have hasks : Asks (fun r => ¬ r.OnForeground) (relayInterruptsTo (some pgid)) :=
        (stays_relay _ id id fun _ => id).asks
      have hrest := not_handed g (hasks.events hrelay)
      simp only [Handed, List.map_append, List.mem_append, not_or]
      exact ⟨hno g, hrest⟩
    · cases he

/-- Where the shell has handed the terminal to a pipeline, its own group is in the foreground
again in the end if it had taken the foreground before, or finds itself there. If nobody else
moves the foreground, it finds the pipeline there. -/
theorem runForeground_foreground {p p' : Pipeline} {pgid : Pid} {ctx ctx' : Context}
    {t : List Event} {interrupted : Bool} {others : Prop} {fg fg' : Pid}
    (h : Runs (runForeground p pgid ctx) t (interrupted, p', ctx'))
    (hl : Leads (Foreground others) fg t fg')
    (hk : ∀ e ∈ t, e.Accepts ctx.terminal.shellGroup) (hg : Handed pgid t) :
    ∃ found, (others ∨ found = pgid) ∧ (fg' = ctx.terminal.shellGroup ↔
      ctx.terminal.ownsForeground = true ∨ found = ctx.terminal.shellGroup) := by
  obtain ⟨t₁, t₂, t₃, t₄, handed, ctx₁, waited, ctx₂, rfl, hlend, hwait, hback, -, -, hnotice,
    -⟩ := runs_runForeground h
  obtain ⟨fg₁, hl₁, hl⟩ := leads_append.mp hl
  obtain ⟨found, hl₂, hl⟩ := leads_append.mp hl
  obtain ⟨fg₃, hl₃, hl₄⟩ := leads_append.mp hl
  obtain rfl := hl₄.foreground_eq hnotice.events
  have hwaits : Asks (fun r => r.IsWait) (waitStages p) :=
    (stays_waitFrom _ _ _ fun _ _ => trivial).asks
  have hfound : others ∨ found = fg₁ := by
    refine hl₂.preserves (fun g => others ∨ g = fg₁) (.inr rfl) ?_
    intro e he s s' hs hstep
    have hw := hwaits.events hwait e he
    unfold Foreground at hstep
    split at hstep
    · exact absurd hw id
    · exact absurd hw id
    · exact hstep.elim .inl fun heq => heq ▸ hs
    · exact hstep ▸ hs
  obtain ⟨rfl, hno⟩ | ⟨rfl, hterminal, hfd, rfl⟩ := lend_handed hlend hl₁
  · -- nothing was lent, and so nothing in the exchanges gives the terminal away
    have hback : ∀ e ∈ t₃, ¬ e.request.OnForeground := by
      obtain ⟨hh, -⟩ | ⟨-, hrelay, -⟩ := runs_takeBack hback
      · cases hh
      · have hasks : Asks (fun r => ¬ r.OnForeground) (relayInterruptsTo none) :=
          (stays_relay _ id id fun _ => id).asks
        exact hasks.events hrelay
    have hwaits : Asks (fun r => ¬ r.OnForeground) (waitStages p) :=
      (stays_waitFrom _ _ _ fun _ _ => id).asks
    simp only [Handed, List.map_append, List.mem_append] at hg
    obtain hg | hg | hg | hg := hg
    · exact absurd hg (hno pgid)
    · exact absurd hg (not_handed pgid (hwaits.events hwait))
    · exact absurd hg (not_handed pgid hback)
    · exact absurd hg (not_handed pgid fun e he => (hnotice.events e he).1)
  · obtain ⟨-, result, terminal, hset, -⟩ | ⟨hh, -⟩ := runs_takeBack hback
    · rw [hterminal] at hset
      have hk₃ : ∀ e ∈ t₃, e.Accepts ctx.terminal.shellGroup := by
        intro e he
        exact hk e (by simp [he])
      obtain ⟨htakes, hdenied⟩ := takes_iff hset hl₃ hfd hk₃
      refine ⟨found, hfound, ?_, fun h => (htakes.mpr h).2⟩
      intro hfg
      by_cases hmay : ctx.terminal.ownsForeground = true ∨ found = ctx.terminal.shellGroup
      · exact hmay
      · exact .inr ((hdenied hmay).2 ▸ hfg)
    · cases hh

/-- The shell gets the terminal back from a group that it has lent it to exactly if it had
taken the foreground for itself before, the group being another one. Otherwise it is denied
and the group stays in the foreground. The same holds of a pipeline that the terminal was
handed to, where it does not matter who else moves the foreground in the meantime if the shell
had taken it before. -/
theorem gets_back_iff_took {past : List Asked} {handle : Terminal} {fg : Pid}
    (h : Course past handle fg) :
    (∀ g t handle' fg₁ u result handle'' fg₂,
      Runs (handle.setForeground (some g)) t (.ok (), handle') →
      Leads (Foreground False) fg t fg₁ →
      Runs (handle'.setForeground none) u (result, handle'') →
      Leads (Foreground False) fg₁ u fg₂ → (∀ e ∈ u, e.Accepts handle.shellGroup) →
      (result = .ok () ∧ fg₂ = handle.shellGroup ↔ Took past ∨ g = handle.shellGroup) ∧
      (¬ (Took past ∨ g = handle.shellGroup) → result = .error (.terminal .perm) ∧ fg₂ = g)) ∧
    ∀ p pgid ctx t interrupted p' ctx' fg' others, ctx.terminal = handle →
      Runs (runForeground p pgid ctx) t (interrupted, p', ctx') →
      Leads (Foreground others) fg t fg' → (∀ e ∈ t, e.Accepts handle.shellGroup) →
      Handed pgid t →
      (Took past → fg' = handle.shellGroup) ∧
      (¬ others → (fg' = handle.shellGroup ↔ Took past ∨ pgid = handle.shellGroup)) := by
  constructor
  · intro g t handle' fg₁ u result handle'' fg₂ hlend hl hback hl' hk
    obtain ⟨⟨e, he⟩, -⟩ | ⟨-, -, hfd, rfl, rfl⟩ := runs_setForeground hlend hl
    · cases he
    · have htakes := takes_iff hback hl' hfd hk
      simpa [h.owns_iff] using htakes
  · rintro p pgid ctx t interrupted p' ctx' fg' others rfl hrun hl hk hg
    obtain ⟨found, hfound, hiff⟩ := runForeground_foreground hrun hl hk hg
    rw [h.owns_iff] at hiff
    refine ⟨fun htook => hiff.mpr (.inl htook), fun hothers => ?_⟩
    rw [hiff, hfound.resolve_left hothers]

/-- A shell of group 100 that took the foreground when it started lends it to group 200 and
gets it back. -/
theorem gets_back_after_taking :
    Course [⟨none, .ok ()⟩] ⟨some 3, 100, true⟩ 100 ∧
    Runs (Terminal.setForeground ⟨some 3, 100, true⟩ (some 200))
      [.call (.foreground 3) (.ok 100), .call (.setForeground 3 200) (.ok ())]
      (.ok (), ⟨some 3, 100, true⟩) ∧
    ∀ u result handle'' fg₂,
      Runs (Terminal.setForeground ⟨some 3, 100, true⟩ none) u (result, handle'') →
      Leads (Foreground False) 200 u fg₂ → (∀ e ∈ u, e.Accepts 100) →
      result = .ok () ∧ fg₂ = 100 := by
  have hcourse : Course [⟨none, .ok ()⟩] ⟨some 3, 100, true⟩ 100 :=
    .asked (.opened (runs_openControlling_tty 100 3)) (runs_granted (.inl rfl) none)
      (leads_granted 100)
  have hlend : Runs (Terminal.setForeground ⟨some 3, 100, true⟩ (some 200))
      [.call (.foreground 3) (.ok 100), .call (.setForeground 3 200) (.ok ())]
      (.ok (), ⟨some 3, 100, true⟩) := runs_granted (.inl rfl) (some 200)
  refine ⟨hcourse, hlend, fun u result handle'' fg₂ hback hl hk => ?_⟩
  refine (((gets_back_iff_took hcourse).1 _ _ _ _ _ _ _ _ hlend (leads_granted 200) hback hl
    hk).1).mpr ?_
  exact .inl ⟨_, List.mem_singleton_self _, rfl, rfl⟩

/-- The shell does not always get the terminal back: one that was started in the background,
so that it was denied the foreground, and then brought there by others, lends it to group 200
and is denied it afterwards. -/
theorem not_always_gets_back :
    ¬ ∀ (past : List Asked) (handle : Terminal) (fg : Pid), Course past handle fg →
      ∀ g t handle' fg₁ u result handle'' fg₂,
        Runs (handle.setForeground (some g)) t (.ok (), handle') →
        Leads (Foreground False) fg t fg₁ →
        Runs (handle'.setForeground none) u (result, handle'') →
        Leads (Foreground False) fg₁ u fg₂ → (∀ e ∈ u, e.Accepts handle.shellGroup) →
        result = .ok () ∧ fg₂ = handle.shellGroup := by
  intro h
  have hdenied : Course [⟨none, .error (.terminal .perm)⟩] ⟨some 3, 100, false⟩ 50 :=
    .asked (.opened (runs_openControlling_tty 100 3)) (runs_denied (by decide) none) leads_denied
  have hlend : Runs (Terminal.setForeground ⟨some 3, 100, false⟩ (some 200))
      [.call (.foreground 3) (.ok 100), .call (.setForeground 3 200) (.ok ())]
      (.ok (), ⟨some 3, 100, false⟩) := runs_granted (.inl rfl) (some 200)
  have hback : Runs (Terminal.setForeground ⟨some 3, 100, false⟩ none)
      [.call (.foreground 3) (.ok 200)]
      (.error (.terminal .perm), ⟨some 3, 100, false⟩) := runs_denied (by decide) none
  obtain ⟨hok, -⟩ := h _ _ _ (.outside 100 hdenied) 200 _ _ 200 _ _ _ 200 hlend
    (leads_granted 200) hback leads_denied (by simp [Event.Accepts])
  cases hok

end JobShell
