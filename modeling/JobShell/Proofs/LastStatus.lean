import JobShell.Proofs.Indifference
import JobShell.Proofs.Line

/-!
The last status from one line to the next. `&&` and `||` look at it, but only behind a pipeline
that has set it: so what a line does never depends on what earlier lines have left there, and
either the line settles a last status itself or the old one stays.
-/
namespace JobShell

open Program

section

variable (ctx : Context) (s : Status)

/-- What can be seen of a line when it is done, all but the last status. -/
def shown (r : Flow × Context) : Flow × Context := (r.1, r.2.withStatus 0)

theorem reachable_of_noConnector {before : Option Join}
    (hb : ∀ join ∈ before, join.connector? = none) (status : Status) :
    reachable before status = true := by
  cases before with
  | none => rfl
  | some join =>
    rw [reachable_iff, hb join rfl]
    exact fun _ h => by cases h

theorem Pipeline.connector?_of_isBackground {p : Pipeline} (hp : p.isBackground = true) :
    ∀ join ∈ some p.join, join.connector? = none := by
  have hj : p.join = .background := by simpa [Pipeline.isBackground] using hp
  simp [hj, Join.connector?]

/-- Behind no connector a list is worked off in the same way whatever the last status is. The
first pipeline is reached; if it is in the foreground it sets the status, and otherwise the
next one is reached as well. -/
theorem shown_runAfter {before : Option Join} (hb : ∀ join ∈ before, join.connector? = none)
    (ps : CommandList) :
    shown <$> runAfter before (ctx.withStatus s) ps = shown <$> runAfter before ctx ps := by
  induction ps generalizing before ctx with
  | nil => rfl
  | cons p ps ih =>
    simp only [runAfter, reachable_of_noConnector hb, ↓reduceIte, map_bind]
    refine bind_congr fun arrived => ?_
    cases arrived with
    | true => rfl
    | false =>
      simp only [Bool.false_eq_true, ↓reduceIte, runReached_withStatus, bind_map_left, map_bind]
      refine bind_congr ?_
      rintro ⟨verdict, ctx'⟩
      cases verdict with
      | exit code => rfl
      | abandon =>
        by_cases hp : p.isBackground = true
        · simp only [Verdict.leaves, hp, ↓reduceIte]
          rfl
        · simp only [Verdict.leaves, hp]
          rfl
      | next =>
        by_cases hp : p.isBackground = true
        · simp only [Verdict.leaves, hp, ↓reduceIte]
          exact ih ctx' (Pipeline.connector?_of_isBackground hp)
        · simp only [Verdict.leaves, hp, Bool.false_eq_true, ↓reduceIte]

theorem shown_perform (line : String) :
    shown <$> Context.perform (ctx.withStatus s) line = shown <$> ctx.perform line := by
  unfold Context.perform
  split
  · rfl
  · exact shown_runAfter ctx s (by simp) _
  · rw [map_bind, map_bind]
    rfl

/-- What sees nothing of the last status follows in the same way. -/
theorem bind_of_shown {β : Type} {x y : Program (Flow × Context)} {f : Flow × Context → Program β}
    (h : shown <$> x = shown <$> y) (hf : ∀ r, f r = f (shown r)) : x >>= f = y >>= f :=
  calc x >>= f = x >>= fun r => f (shown r) := bind_congr hf
    _ = shown <$> x >>= f := (bind_map_left ..).symm
    _ = shown <$> y >>= f := by rw [h]
    _ = y >>= fun r => f (shown r) := bind_map_left ..
    _ = y >>= f := (bind_congr hf).symm

theorem shown_evaluate (line : String) :
    shown <$> Context.evaluate (ctx.withStatus s) line = shown <$> ctx.evaluate line := by
  simp only [Context.evaluate, map_bind, reap_withStatus, bind_map_left]
  refine bind_congr fun _ => ?_
  refine bind_congr fun ctx₁ => ?_
  refine bind_of_shown (shown_perform ctx₁ s line) ?_
  rintro ⟨flow, ctx₂⟩
  simp only [shown, reap_withStatus, bind_map_left]
  rfl

end

section

variable {ctx : Context} {p : Pipeline} {t : List Event} {ending : Ending} {ctx' : Context}

theorem Verdict.leaves_foreground {verdict : Verdict} {p : Pipeline} (hp : p.isBackground = false)
    (hv : ∀ code, verdict ≠ .exit code) (s : Status) (ctx : Context) :
    verdict.leaves p s ctx = ctx := by
  cases verdict with
  | next => simp [leaves, hp]
  | abandon => simp [leaves, hp]
  | exit code => exact absurd rfl (hv code)

/-- A pipeline turns out in the same way whatever the last status was before. -/
theorem TurnsOut.withStatus (s : Status) (h : TurnsOut p ctx t ending ctx') :
    TurnsOut p (ctx.withStatus s) t ending (ending.verdict.leaves p s ctx') := by
  have hrun := runs_runReached.mpr ⟨ending, h, rfl⟩
  have hrun' : Runs (runReached p (ctx.withStatus s)) t
      (ending.verdict, ending.verdict.leaves p s ctx') := by
    rw [runReached_withStatus]
    exact runs_map hrun
  refine h.transfer hrun' rfl fun hp hexit => ?_
  have hverdict : ∀ code, ending.verdict ≠ .exit code :=
    fun code hc => hexit code (Ending.exit_of_verdict hc)
  rw [Verdict.leaves_foreground hp hverdict]

end

/-- The turn leaves a last status of its own. -/
def Turn.Settles (turn : Turn) : Prop :=
  turn.pipeline.isBackground = false ∧ ∀ code, turn.ending ≠ .exit code

/-- What can be seen of a turn, all but the last statuses. -/
def Turn.shown (turn : Turn) : Turn :=
  { turn with before := turn.before.withStatus 0, after := turn.after.withStatus 0 }

/-- The turn with another last status before it. -/
def Turn.withStatus (turn : Turn) (s : Status) : Turn :=
  { turn with
    before := turn.before.withStatus s
    after := turn.ending.verdict.leaves turn.pipeline s turn.after }

theorem Turn.after_settled {turn : Turn} (h : turn.Settles) (s : Status) :
    (turn.withStatus s).after = turn.after :=
  Verdict.leaves_foreground h.1 (fun code hc => h.2 code (Ending.exit_of_verdict hc)) s turn.after

theorem Turn.after_unsettled {turn : Turn} (h : ¬ turn.Settles) (s : Status) :
    (turn.withStatus s).after = turn.after.withStatus s := by
  by_cases hexit : ∃ code, turn.ending = .exit code
  · obtain ⟨code, hexit⟩ := hexit
    simp [withStatus, hexit, Ending.verdict, Verdict.leaves]
  · have hback : turn.pipeline.isBackground = true := by
      cases hp : turn.pipeline.isBackground with
      | true => rfl
      | false => exact absurd ⟨hp, by simpa using hexit⟩ h
    have hverdict : turn.ending.verdict = .next ∨ turn.ending.verdict = .abandon := by
      cases he : turn.ending <;> simp_all [Ending.verdict]
    obtain hv | hv := hverdict <;> simp [withStatus, hv, Verdict.leaves, hback]

theorem Turn.shown_withStatus (turn : Turn) (s : Status) :
    (turn.withStatus s).shown = turn.shown := by
  by_cases h : turn.Settles
  · simp only [shown, after_settled h]
    rfl
  · simp only [shown, after_unsettled h]
    rfl

theorem map_shown_withStatus (log : List Turn) (s : Status) :
    (log.map (·.withStatus s)).map Turn.shown = log.map Turn.shown := by
  simp [Turn.shown_withStatus]

/-- A pipeline that is reached whatever the last status is comes up in the same way. -/
theorem Attempts.withStatus {reached reached' : Prop} {status : Option Status} {p : Pipeline}
    {ctx ctx' : Context} {t : List Event} {log : List Turn} {standing : Standing} (hr : reached)
    (hr' : reached') (s : Status) (h : Attempts reached status p ctx t log standing ctx') :
    ((∃ turn ∈ log, turn.Settles) →
      Attempts reached' status p (ctx.withStatus s) t (log.map (·.withStatus s)) standing ctx') ∧
    ((∀ turn ∈ log, ¬ turn.Settles) →
      Attempts reached' status p (ctx.withStatus s) t (log.map (·.withStatus s)) standing
        (ctx'.withStatus s)) := by
  cases h with
  | dropped => exact ⟨by simp, fun _ => .dropped⟩
  | skipped hn => exact absurd hr hn
  | @ran t ending _ _ hturn =>
    let turn : Turn := ⟨p, ctx, t, ending, ctx'⟩
    have hran (out : Context) (ho : (turn.withStatus s).after = out) :
        Attempts reached' status p (ctx.withStatus s) (inquiry false :: t)
          ([turn].map (·.withStatus s)) ending.standing out := by
      subst ho
      exact .ran hr' (hturn.withStatus s)
    constructor
    · intro hs
      exact hran _ (Turn.after_settled (by simpa using hs) s)
    · intro hs
      exact hran _ (Turn.after_unsettled (by simpa using hs) s)

/-- A list goes on without a status of its own only behind a pipeline in the background. -/
theorem Attempts.isBackground {reached : Prop} {status status' : Option Status} {p : Pipeline}
    {ctx ctx' : Context} {t : List Event} {log : List Turn} (hr : reached)
    (h : Attempts reached status p ctx t log (.goesOn status') ctx')
    (hs : ∀ turn ∈ log, ¬ turn.Settles) : p.isBackground = true := by
  generalize hg : Standing.goesOn status' = standing at h
  cases h with
  | dropped => cases hg
  | skipped hn => exact absurd hr hn
  | @ran t ending _ _ hturn =>
    have hexit : ∀ code, ending ≠ .exit code := by
      rintro code rfl
      cases hg
    cases hp : p.isBackground with
    | true => rfl
    | false => exact absurd ⟨hp, hexit⟩ (hs _ List.mem_cons_self)

theorem Proceeds.withStatus {before : Option Join} {ctx ctx' : Context} {ps : CommandList}
    {t : List Event} {log : List Turn} {flow : Flow}
    (hb : ∀ join ∈ before, join.connector? = none) (s : Status)
    (h : Proceeds before ctx ps t log flow ctx') :
    ∃ log', log'.map Turn.shown = log.map Turn.shown ∧
      ((∃ turn ∈ log, turn.Settles) →
        Proceeds before (ctx.withStatus s) ps t log' flow ctx') ∧
      ((∀ turn ∈ log, ¬ turn.Settles) →
        Proceeds before (ctx.withStatus s) ps t log' flow (ctx'.withStatus s)) := by
  induction h with
  | nil => exact ⟨[], rfl, by simp, fun _ => .nil⟩
  | @cut before ctx ctx' p ps t log flow h =>
    obtain ⟨hsettled, hunsettled⟩ :=
      h.withStatus (reachable_of_noConnector hb _) (reachable_of_noConnector hb s) s
    exact ⟨_, map_shown_withStatus log s, fun hs => .cut (hsettled hs),
      fun hs => .cut (hunsettled hs)⟩
  | @next before ctx ctx₁ ctx' p ps t u log log' status flow h hrest ih =>
    obtain ⟨hsettled, hunsettled⟩ :=
      h.withStatus (reachable_of_noConnector hb _) (reachable_of_noConnector hb s) s
    by_cases hs : ∃ turn ∈ log, turn.Settles
    · -- from here on the two runs are one and the same
      refine ⟨log.map (·.withStatus s) ++ log', by simp [Turn.shown_withStatus], ?_, ?_⟩
      · intro _
        exact .next (hsettled hs) hrest
      · intro hnone
        obtain ⟨turn, ht, hs⟩ := hs
        exact absurd hs (hnone turn (List.mem_append_left _ ht))
    · have hs : ∀ turn ∈ log, ¬ turn.Settles := by simpa using hs
      have hback := h.isBackground (reachable_of_noConnector hb _) hs
      obtain ⟨log'', hmap, hsettled', hunsettled'⟩ := ih (Pipeline.connector?_of_isBackground hback)
      refine ⟨log.map (·.withStatus s) ++ log'', by simp [Turn.shown_withStatus, hmap], ?_, ?_⟩
      · rintro ⟨turn, ht, hturn⟩
        have ht : turn ∈ log' := by
          obtain ht | ht := List.mem_append.mp ht
          · exact absurd hturn (hs turn ht)
          · exact ht
        exact .next (hunsettled hs) (hsettled' ⟨turn, ht, hturn⟩)
      · intro hnone
        exact .next (hunsettled hs)
          (hunsettled' fun turn ht => hnone turn (List.mem_append_right _ ht))

/-- The line has a syntax error, or one of the pipelines that it reaches leaves a last status. -/
def Settles (line : String) (log : List Turn) : Prop :=
  (∃ cause, parse line = .error cause) ∨ ∃ turn ∈ log, turn.Settles

theorem Proceeds.unsettled {before : Option Join} {ctx ctx' : Context} {ps : CommandList}
    {t : List Event} {log : List Turn} {flow : Flow} (h : Proceeds before ctx ps t log flow ctx')
    (hs : ∀ turn ∈ log, ¬ turn.Settles) : ctx'.lastStatus = ctx.lastStatus := by
  have hnone : log.filterMap (fun turn => turn.ending.status?) = [] := by
    rw [List.filterMap_eq_nil_iff]
    intro turn ht
    by_cases hexit : ∃ code, turn.ending = .exit code
    · obtain ⟨code, hexit⟩ := hexit
      rw [hexit]
      rfl
    · have hexit : ∀ code, turn.ending ≠ .exit code := by simpa using hexit
      have hback := (h.report.turnsOut turn ht).isBackground hexit
      cases hp : turn.pipeline.isBackground with
      | true => simpa [hp] using hback
      | false => exact absurd ⟨hp, hexit⟩ (hs turn ht)
  rw [h.report.lastStatus, hnone]
  rfl

theorem runs_reap_withStatus {ctx ctx' : Context} {t : List Event} (h : Runs ctx.reap t ctx')
    (s : Status) : Runs (Context.reap (ctx.withStatus s)) t (ctx'.withStatus s) := by
  rw [reap_withStatus]
  exact runs_map h

theorem reap_lastStatus {ctx ctx' : Context} {t : List Event} (h : Runs ctx.reap t ctx') :
    ctx'.lastStatus = ctx.lastStatus := by
  have hsame := h.value_unique (runs_reap_withStatus h ctx.lastStatus)
  rw [hsame]
  rfl

theorem Performs.withStatus {line : String} {ctx ctx' : Context} {t : List Event}
    {log : List Turn} {flow : Flow} (s : Status) (h : Performs line ctx t log flow ctx') :
    ∃ log', log'.map Turn.shown = log.map Turn.shown ∧
      (Settles line log → Performs line (ctx.withStatus s) t log' flow ctx') ∧
      (¬ Settles line log → ctx'.lastStatus = ctx.lastStatus ∧
        Performs line (ctx.withStatus s) t log' flow (ctx'.withStatus s)) := by
  cases h with
  | @list list _ _ _ _ hlist h =>
    obtain ⟨log', hmap, hsettled, hunsettled⟩ := h.withStatus (by simp) s
    refine ⟨log', hmap, ?_, ?_⟩
    · rintro (⟨cause, hcause⟩ | hs)
      · cases hlist.symm.trans hcause
      · exact .list hlist (hsettled hs)
    · intro hs
      have hs : ∀ turn ∈ log, ¬ turn.Settles := fun turn ht hturn => hs (.inr ⟨turn, ht, hturn⟩)
      exact ⟨h.unsettled hs, .list hlist (hunsettled hs)⟩
  | @refused cause t hcause h =>
    exact ⟨[], rfl, fun _ => .refused hcause h, fun hs => absurd (.inl ⟨cause, hcause⟩) hs⟩

/-- What a line does never depends on the status that earlier lines have left. With another last
status it is the same program but for the last status it ends with. Where the line settles a
last status, by a syntax error or by a pipeline in the foreground that is reached and is not
`exit`, both runs end alike; otherwise each keeps the last status that it started with. -/
theorem evaluate_withStatus (line : String) (ctx : Context) (s : Status) :
    shown <$> Context.evaluate (ctx.withStatus s) line = shown <$> ctx.evaluate line ∧
    (∀ t flow ctx', Runs (ctx.evaluate line) t (flow, ctx') ↔
      ∃ x log, t = Exchanges.all x ∧ Evaluation line ctx x log flow ctx') ∧
    ∀ x log flow ctx', Evaluation line ctx x log flow ctx' →
      ∃ log', log'.map Turn.shown = log.map Turn.shown ∧
        (Settles line log → Evaluation line (ctx.withStatus s) x log' flow ctx') ∧
        (¬ Settles line log → ctx'.lastStatus = ctx.lastStatus ∧
          Evaluation line (ctx.withStatus s) x log' flow (ctx'.withStatus s)) := by
  refine ⟨shown_evaluate ctx s line, fun t flow ctx' => runs_evaluate, ?_⟩
  intro x log flow ctx' h
  cases h with
  | intro hreap hperform hreap' =>
    have hbefore := runs_reap_withStatus hreap s
    obtain ⟨log', hmap, hsettled, hunsettled⟩ := hperform.withStatus s
    refine ⟨log', hmap, ?_, ?_⟩
    · intro hs
      exact .intro hbefore (hsettled hs) hreap'
    · intro hs
      obtain ⟨hlast, hperform'⟩ := hunsettled hs
      refine ⟨?_, .intro hbefore hperform' (runs_reap_withStatus hreap' s)⟩
      rw [reap_lastStatus hreap', hlast, reap_lastStatus hreap]

end JobShell
