import JobShell.Controller
import JobShell.Proofs.Trace
import JobShell.Shell

/-!
What running a pipeline does not depend on. With another last status, or with another join
outside the background, each part of the shell is the same program as before, up to the one
field in what it ends with.
-/
namespace JobShell

open Program

/-- The context with another last status. -/
def Context.withStatus (ctx : Context) (s : Status) : Context := { ctx with lastStatus := s }

section

variable (ctx : Context) (s : Status)

theorem changeDir_withStatus (path : Option String) :
    changeDir path (ctx.withStatus s) =
      (fun r => (r.1, r.2.withStatus s)) <$> changeDir path ctx := by
  unfold changeDir
  dsimp only
  split
  · rename_i hnul
    have hnul' : (ctx.destination path).hasNul = true := hnul
    rw [if_pos hnul']
    rfl
  · rename_i hnul
    have hnul' : ¬ (ctx.destination path).hasNul = true := hnul
    rw [if_neg hnul', map_bind]
    refine bind_congr fun changed => ?_
    cases changed with
    | error e => rfl
    | ok value => rw [map_bind]; rfl

theorem runBuiltin_withStatus (argv : List String) :
    runBuiltin argv (ctx.withStatus s) =
      (fun r => (r.1, r.2.withStatus s)) <$> runBuiltin argv ctx := by
  have htry : tryBuiltin argv (ctx.withStatus s) =
      (fun r => (r.1, r.2.withStatus s)) <$> tryBuiltin argv ctx := by
    unfold tryBuiltin
    split
    · exact changeDir_withStatus ctx s _
    · rfl
    · rfl
  simp only [runBuiltin, htry, bind_map_left, map_bind]
  refine bind_congr ?_
  rintro ⟨result, ctx'⟩
  cases result with
  | ok outcome => rfl
  | error e => rw [map_bind]; rfl

theorem runInShell_withStatus (stage : Stage) :
    runInShell stage (ctx.withStatus s) =
      (fun r => (r.1, r.2.withStatus s)) <$> runInShell stage ctx := by
  unfold runInShell
  split
  · rfl
  · rw [map_bind]
    refine bind_congr ?_
    rintro ⟨applied, saved⟩
    cases applied with
    | ok value => simp only [runBuiltin_withStatus, bind_map_left, map_bind, map_pure]
    | error e => simp only [map_bind, map_pure]

theorem stageProcess_withStatus (index : Nat) (stage : Stage) (pipes : List PipeEnds)
    (group : Option Pid) :
    stageProcess index stage pipes group (ctx.withStatus s) =
      stageProcess index stage pipes group ctx := by
  unfold stageProcess
  refine bind_congr fun setUp => ?_
  cases setUp with
  | error e => rfl
  | ok value =>
    simp only [runBuiltin_withStatus, bind_map_left]
    rfl

theorem startStages_withStatus (pipes : List PipeEnds) (index : Nat) (group : Option Pid)
    (stages : List Stage) :
    startStages pipes (ctx.withStatus s) index group stages =
      startStages pipes ctx index group stages := by
  induction stages generalizing index group with
  | nil => rfl
  | cons stage stages ih => simp only [startStages, stageProcess_withStatus, ih]

theorem startPipeline_withStatus (p : Pipeline) :
    startPipeline p (ctx.withStatus s) =
      (fun r => (r.1, r.2.1, r.2.2.withStatus s)) <$> startPipeline p ctx := by
  have hprocesses : startProcesses p (ctx.withStatus s) = startProcesses p ctx := by
    simp only [startProcesses, startStages_withStatus]
  unfold startPipeline
  split
  · split
    · simp only [runInShell_withStatus, bind_map_left, map_bind, map_pure]
    · simp only [hprocesses, map_bind, map_pure]
  · simp only [hprocesses, map_bind, map_pure]

theorem detach_withStatus (p : Pipeline) (pgid : Pid) :
    detach p pgid (ctx.withStatus s) = (·.withStatus s) <$> detach p pgid ctx := by
  unfold detach
  dsimp only
  split
  · rename_i hi
    have hi' : ctx.interactive = true := hi
    rw [if_pos hi', map_bind]
    rfl
  · rename_i hi
    have hi' : ¬ ctx.interactive = true := hi
    rw [if_neg hi']
    rfl

/-- Waiting in the foreground leaves nothing of the last status. -/
theorem runForeground_withStatus (p : Pipeline) (pgid : Pid) :
    runForeground p pgid (ctx.withStatus s) = runForeground p pgid ctx := by
  have hlend : lend pgid (ctx.withStatus s) =
      (fun r => (r.1, r.2.withStatus s)) <$> lend pgid ctx := by
    simp only [lend, map_bind]
    refine bind_congr ?_
    rintro ⟨result, terminal⟩
    cases result with
    | ok value => rfl
    | error e => rw [map_bind]; rfl
  have htake (handed : Bool) (ctx : Context) : takeBack handed (ctx.withStatus s) =
      (·.withStatus s) <$> takeBack handed ctx := by
    cases handed with
    | true => simp only [takeBack, ↓reduceIte, map_bind]; rfl
    | false => simp only [takeBack, Bool.false_eq_true, ↓reduceIte, map_bind]; rfl
  simp only [runForeground, hlend, htake, bind_map_left]
  rfl

theorem startProcesses_withJoin (p : Pipeline) (join : Join) :
    startProcesses { p with join } ctx =
      (fun r => (r.1, { r.2 with join })) <$> startProcesses p ctx := by
  unfold startProcesses
  dsimp only
  split
  · rfl
  · rw [map_bind]
    refine bind_congr fun made => ?_
    cases made with
    | error e => rfl
    | ok pipes =>
      simp only [map_bind]
      refine bind_congr ?_
      rintro ⟨result, group, stages⟩
      refine bind_congr fun _ => ?_
      cases result with
      | error e => rfl
      | ok value => cases group <;> rfl

/-- How a pipeline is started does not depend on its join, and the join stays as it is. -/
theorem startPipeline_withJoin (p : Pipeline) (join : Join) :
    startPipeline { p with join } ctx =
      (fun r => (r.1, { r.2.1 with join }, r.2.2)) <$> startPipeline p ctx := by
  unfold startPipeline
  dsimp only
  split
  · split
    · rw [map_bind]
      rfl
    · rw [startProcesses_withJoin, bind_map_left, map_bind]
      rfl
  · rw [startProcesses_withJoin, bind_map_left, map_bind]
    rfl

theorem runForeground_withJoin (p : Pipeline) (join : Join) (pgid : Pid) :
    runForeground { p with join } pgid ctx =
      (fun r => (r.1, { r.2.1 with join }, r.2.2)) <$> runForeground p pgid ctx := by
  simp only [runForeground, map_bind]
  refine bind_congr fun lent => ?_
  refine bind_congr fun waited => ?_
  refine bind_congr fun ctx' => ?_
  split
  · rfl
  · rw [map_bind]
    rfl

/-- A pipeline outside the background is run in the same way whatever its join is. -/
theorem runReached_withJoin {p : Pipeline} {join : Join} (hp : p.isBackground = false)
    (hj : join ≠ .background) : runReached { p with join } ctx = runReached p ctx := by
  have hjoin : ∀ q : Pipeline, Pipeline.isBackground { q with join } = false := by
    intro q
    simpa [Pipeline.isBackground] using hj
  have hown : ∀ q : Pipeline, Pipeline.isBackground { q with join := p.join } = false := fun q => hp
  have hstart := startPipeline_withJoin ctx p p.join
  rw [runReached, startPipeline_withJoin, bind_map_left, runReached, hstart,
    bind_map_left, bind_map_left]
  refine bind_congr ?_
  rintro ⟨started, q, ctx'⟩
  cases started with
  | error e => simp only [Context.setStatus, hjoin, hown]; rfl
  | ok started =>
    cases started with
    | finished outcome => cases outcome <;> simp only [Context.setStatus, hjoin, hown]
    | group pgid =>
      simp only [hjoin, hown, Bool.false_eq_true, ↓reduceIte]
      rw [runForeground_withJoin, runForeground_withJoin ctx' q p.join, bind_map_left,
        bind_map_left]

/-- The last status that a reached pipeline has found is left behind by one in the background
and by `exit`, and by no other. -/
def Verdict.leaves (verdict : Verdict) (p : Pipeline) (s : Status) (ctx : Context) : Context :=
  match verdict with
  | .exit _ => ctx.withStatus s
  | .next | .abandon => if p.isBackground then ctx.withStatus s else ctx

theorem runReached_withStatus (p : Pipeline) :
    runReached p (ctx.withStatus s) =
      (fun r => (r.1, r.1.leaves p s r.2)) <$> runReached p ctx := by
  have hjoin (q : Pipeline) :
      Pipeline.isBackground { q with join := p.join } = p.isBackground := rfl
  have hstart := startPipeline_withJoin ctx p p.join
  rw [runReached, startPipeline_withStatus, bind_map_left, runReached, hstart, bind_map_left,
    bind_map_left, map_bind]
  refine bind_congr ?_
  rintro ⟨started, q, ctx'⟩
  cases hb : p.isBackground with
  | true =>
    have hset (ctx : Context) (status : Status) :
        ctx.setStatus { q with join := p.join } status = ctx := by
      simp [Context.setStatus, hjoin, hb]
    cases started with
    | error e => simp only [hset, map_bind, map_pure, Verdict.leaves, hb, ↓reduceIte]
    | ok started =>
      cases started with
      | finished outcome =>
        cases outcome with
        | status status => simp only [hset, map_pure, Verdict.leaves, hb, ↓reduceIte]
        | exit code => rfl
      | group pgid =>
        simp only [hjoin, hb, ↓reduceIte, detach_withStatus, map_bind, bind_map_left, map_pure,
          Verdict.leaves]
  | false =>
    have hset (ctx : Context) (status : Status) :
        ctx.setStatus { q with join := p.join } status = ctx.withStatus status := by
      simp [Context.setStatus, hjoin, hb, Context.withStatus]
    cases started with
    | error e =>
      simp only [hset, map_bind, map_pure, Verdict.leaves, hb, Bool.false_eq_true, ↓reduceIte]
      rfl
    | ok started =>
      cases started with
      | finished outcome =>
        cases outcome with
        | status status =>
          simp only [hset, map_pure, Verdict.leaves, hb, Bool.false_eq_true, ↓reduceIte]
          rfl
        | exit code => rfl
      | group pgid =>
        simp only [hjoin, hb, Bool.false_eq_true, ↓reduceIte, runForeground_withStatus, map_bind,
          map_pure]
        refine bind_congr ?_
        rintro ⟨interrupted, q', ctx''⟩
        cases interrupted <;> simp [Verdict.leaves, hb]

theorem reap_withStatus : Context.reap (ctx.withStatus s) = (·.withStatus s) <$> ctx.reap := by
  unfold Context.reap
  rw [map_bind]
  refine bind_congr ?_
  rintro ⟨finished, jobs⟩
  dsimp only
  split
  · rename_i hi
    have hi' : ctx.interactive = true := hi
    rw [if_pos hi', map_bind]
    rfl
  · rename_i hi
    have hi' : ¬ ctx.interactive = true := hi
    rw [if_neg hi']
    rfl

end

end JobShell
