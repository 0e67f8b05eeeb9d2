import JobShell.Proofs.Family

/-!
Who holds the ends of the pipes. Once a pipeline is started and its stages are set up, an end of
a pipe is held by the stage before it or the one behind it, each on the one descriptor that is
meant for it, or by a stage that has opened it by name. So a reader sees the end of its input as
soon as the one writer is gone.
-/
namespace JobShell

open Program

/-- The process has been through its set-up, and nothing went wrong there. -/
def SetUp (ctx : Context) (pipes : List PipeEnds) (i : Nat) (stage : Stage)
    (q : Running Empty) : Prop :=
  ∃ group t u, q.program = stageProcess i stage pipes group ctx ∧ q.past = t ++ u ∧
    Runs (setUpStage i stage pipes group) t (.ok ())

/-- The redirection that counts for some stream of the stage gives this on its descriptor. -/
def Stage.Opens (stage : Stage) (names : Names) (fd : Fd) (what : Referent) : Prop :=
  ∃ stream r, stream.fd = fd ∧ lastOn stream stage.redirections = some r ∧
    names r.target r.mode.flags what

theorem Pipeline.WellFormed.role {p : Pipeline} (h : p.WellFormed) {i : Nat} {stage : Stage}
    (hi : p.stages[i]? = some stage) : stage.role = .ofPosition i p.stages.length := by
  obtain ⟨hlt, rfl⟩ := List.getElem?_eq_some_iff.mp hi
  have hrole := congrArg (·[i]?) h.roles
  simpa [rolesOf_eq_map, hlt] using hrole

section

variable {names : Names} {p : Pipeline} {ctx : Context} {T : Table} {stage : Stage}

/-- What a stage that is set up has on a descriptor it has from its pipes, from the table that it
was started with or from its own redirections. -/
theorem Wired.origin {count i : Nat} {U : Table} {fd : Fd} {what : Referent}
    (h : Wired names T count i stage U) (hfd : U fd = some what) :
    (fd = 0 ∧ 0 < i ∧ what = .readEnd (i - 1)) ∨ (fd = 1 ∧ i + 1 < count ∧ what = .writeEnd i) ∨
      T fd = some what ∨ stage.Opens names fd what := by
  have hlands (stream : Stream) {before : Option Referent} (heq : stream.fd = fd)
      (hl : Lands names before (U fd) (lastOn stream stage.redirections)) :
      before = some what ∨ stage.Opens names fd what := by
    cases hlast : lastOn stream stage.redirections with
    | none =>
      rw [hlast] at hl
      exact .inl (hl.symm.trans hfd)
    | some r =>
      rw [hlast] at hl
      obtain ⟨what', hn, hto⟩ := hl
      obtain rfl : what' = what := by simpa [hto] using hfd
      exact .inr ⟨stream, r, heq, hlast, hn⟩
  match fd with
  | 0 =>
    obtain hbefore | hopens := hlands .stdin rfl h.stdin
    · split at hbefore
      · rename_i h0
        exact .inl ⟨rfl, h0, by simpa using hbefore.symm⟩
      · exact .inr (.inr (.inl hbefore))
    · exact .inr (.inr (.inr hopens))
  | 1 =>
    obtain hbefore | hopens := hlands .stdout rfl h.stdout
    · split at hbefore
      · rename_i h1
        exact .inr (.inl ⟨rfl, h1, by simpa using hbefore.symm⟩)
      · exact .inr (.inr (.inl hbefore))
    · exact .inr (.inr (.inr hopens))
  | 2 => exact .inr (.inr (hlands .stderr rfl h.stderr))
  | fd + 3 => exact .inr (.inr (.inl (h.others (fd + 3) (Nat.le_add_left 3 fd) ▸ hfd)))

/-- A stage that has been through its set-up is wired from then on. -/
theorem RunsStage.wired {pipes : List PipeEnds} {i : Nat} {q : Running Empty}
    (h : RunsStage names p ctx T pipes i q) (hp : p.WellFormed) (hopen : ∀ fd < 3, T fd ≠ none)
    (hi : p.stages[i]? = some stage) (hset : SetUp ctx pipes i stage q) :
    Wired names T p.stages.length i stage q.table := by
  obtain ⟨group, t, u, hprogram, hpast, hrun⟩ := hset
  obtain ⟨d, d', hlaid, hl, htable⟩ := h.desk
  have hsteps := h.run
  rw [hprogram, hpast] at hsteps
  rw [hpast] at hl
  obtain ⟨d₁, hl₁, hl₂⟩ := leads_append.mp hl
  have hlt : i < p.stages.length := (List.getElem?_eq_some_iff.mp hi).1
  have hensures : Ensures (Desk.Step names) (fun _ _ => True) d
      (setUpStage i stage pipes group) fun d' r =>
        r = .ok () → Wired names T p.stages.length i stage d'.table :=
    ensures_setUpStage group hlaid hopen h.count hlt (hp.role hi) fun _ _ _ => trivial
  have hkept : d' = d₁ :=
    hl₂.unchanged fun e he _ hs => hs.eq_of_isPlain (plain_of_setUp hrun hsteps e he)
  rw [← htable, hkept]
  exact hensures.ends hrun hl₁ rfl

end

namespace Family

variable {α : Type}

/-- The shell has come back from starting the pipeline, and it worked. -/
def HasStarted (p : Pipeline) (ctx : Context)
    (w : Family (Except ShellError Started × Pipeline × Context)) : Prop :=
  ∃ pgid p' ctx', Runs (startPipeline p ctx) w.shell.past (.ok (.group pgid), p', ctx')

/-- All stages that have not ended are set up. -/
def AllSetUp (p : Pipeline) (ctx : Context) (w : Family α) : Prop :=
  ∀ i stage q, p.stages[i]? = some stage → w.children[i]? = some (some q) →
    SetUp ctx w.pipes i stage q

/-- An end of pipe `k` is held by no child but `k`, on standard output, if it is written there,
and `k + 1`, on standard input, if it is read there, apart from what `besides` allows. -/
def EndsHeld (w : Family α) (besides : Nat → Fd → Referent → Prop) : Prop :=
  ∀ i q fd k, w.children[i]? = some (some q) →
    (q.table fd = some (.writeEnd k) → (i = k ∧ fd = 1) ∨ besides i fd (.writeEnd k)) ∧
    (q.table fd = some (.readEnd k) → (i = k + 1 ∧ fd = 0) ∨ besides i fd (.readEnd k))

/-- Nobody is left who could write to the pipe, so that who reads from it sees the end. -/
def AtEnd (w : Family α) (k : Nat) : Prop :=
  (∀ fd, w.shell.table fd ≠ some (.writeEnd k)) ∧
    ∀ q, some q ∈ w.children → ∀ fd, q.table fd ≠ some (.writeEnd k)

end Family

section

variable {names : Names} {p : Pipeline} {ctx : Context} {T : Table}
  {w : Family (Except ShellError Started × Pipeline × Context)}

/-- When the shell has started all processes its table is as it was before. -/
theorem Launching.started (h : Launching names p ctx T w) (hs : w.HasStarted p ctx) :
    w.shell.table = T ∧ w.children.length = p.stages.length := by
  obtain ⟨pgid, p', ctx', hrun⟩ := hs
  obtain ⟨htable, hforks⟩ := (ensures_startPipeline_table p ctx).ends hrun h.desk
  exact ⟨htable, by simpa using hforks pgid rfl⟩

theorem Launching.endsHeld (h : Launching names p ctx T w) (hp : p.WellFormed)
    (hopen : ∀ fd < 3, T fd ≠ none)
    (hT : ∀ fd k, T fd ≠ some (.readEnd k) ∧ T fd ≠ some (.writeEnd k))
    (hset : w.AllSetUp p ctx) :
    w.EndsHeld fun i fd what => ∃ stage, p.stages[i]? = some stage ∧
      stage.Opens names fd what := by
  intro i q fd k hq
  have hruns := h.children i q hq
  obtain ⟨stage, group, hi, -⟩ := hruns.program
  have hwired := hruns.wired hp hopen hi (hset i stage q hi hq)
  constructor
  · intro hfd
    obtain ⟨-, -, hend⟩ | ⟨hone, -, hend⟩ | hbefore | hopens := hwired.origin hfd
    · cases hend
    · cases hend
      exact .inl ⟨rfl, hone⟩
    · exact absurd hbefore (hT fd k).2
    · exact .inr ⟨stage, hi, hopens⟩
  · intro hfd
    obtain ⟨hzero, h0, hend⟩ | ⟨-, -, hend⟩ | hbefore | hopens := hwired.origin hfd
    · cases hend
      exact .inl ⟨(Nat.sub_add_cancel h0).symm, hzero⟩
    · cases hend
    · exact absurd hbefore (hT fd k).1
    · exact .inr ⟨stage, hi, hopens⟩

/-- Once the one writer is gone the pipe is at its end, unless some stage has opened it. -/
theorem atEnd_of_endsHeld {k : Nat} (htable : w.shell.table = T)
    (hT : ∀ fd k, T fd ≠ some (.readEnd k) ∧ T fd ≠ some (.writeEnd k))
    (hheld : w.EndsHeld fun i fd what => ∃ stage, p.stages[i]? = some stage ∧
      stage.Opens names fd what)
    (hgone : w.children[k]? = some none)
    (hunopened : ∀ stage ∈ p.stages, ∀ fd, ¬ stage.Opens names fd (.writeEnd k)) :
    w.AtEnd k := by
  refine ⟨fun fd => htable ▸ (hT fd k).2, ?_⟩
  intro q hmem fd hfd
  obtain ⟨i, hq⟩ := List.mem_iff_getElem?.mp hmem
  obtain ⟨rfl, -⟩ | ⟨stage, hi, hopens⟩ := (hheld i q fd k hq).1 hfd
  · rw [hgone] at hq
    cases hq
  · exact hunopened stage (List.mem_of_getElem? hi) fd hopens

end

/-!
A pipeline of two stages, the second of which opens `/proc/self/fd/0` for writing. What that
gives is left open: on a system where the path names the pipe itself it is a write end of it.
-/

def trueStage : Stage := { argv := ["true"], role := .writesNext }

def catStage : Stage where
  argv := ["cat"]
  redirections := [⟨.stderr, .truncate, "/proc/self/fd/0"⟩]
  role := .readsPrevious

def trueToCat : Pipeline := { stages := [trueStage, catStage], join := .none }

def trueToCatTokens : List Token :=
  [⟨.word, "true"⟩, ⟨.pipe, "|"⟩, ⟨.word, "cat"⟩, ⟨.redirect, "2>"⟩, ⟨.word, "/proc/self/fd/0"⟩]

theorem build_trueToCat : build trueToCatTokens = .ok [trueToCat] := by cbv

/-- Only the standard streams are open. -/
def standardTable : Table := fun fd => if fd < 3 then some (.file 0) else none

def onePipeTable : Table :=
  Function.update (Function.update standardTable 3 (some (.readEnd 0))) 4 (some (.writeEnd 0))

/-- The set-up of a stage next to the one pipe, up to its redirections. -/
def connectEvents (group : Pid) (source target : Fd) : List Event :=
  .call (.setGroup 0 group) (.ok ()) ::
    childDefaultSignals.map (fun signal => .call (.setDisposition signal .default) (.ok ())) ++
    [.call (.duplicate source target) (.ok ()), .call (.close 3) (.ok ()),
      .call (.close 4) (.ok ())]

def catRedirectEvents : List Event :=
  [.call (.openFile "/proc/self/fd/0" Mode.truncate.flags 0o666) (.ok 3),
    .call (.duplicate 3 2) (.ok ()), .call (.close 3) (.ok ())]

theorem runs_setUp_true :
    Runs (setUpStage 0 trueStage [(3, 4)] none) (connectEvents 0 4 1) (.ok ()) := by
  -- the group, then six signals, then the pipe
  refine .call (Except.ok ()) (.call (Except.ok ()) (.call (Except.ok ()) ?_))
  refine .call (Except.ok ()) (.call (Except.ok ()) (.call (Except.ok ()) ?_))
  refine .call (Except.ok ()) (.loop (.call (Except.ok ()) ?_))
  exact .call (Except.ok ()) (.call (Except.ok ()) (.refl _))

theorem runs_setUp_cat : Runs (setUpStage 1 catStage [(3, 4)] (some 7))
    (connectEvents 7 3 0 ++ catRedirectEvents) (.ok ()) := by
  refine .call (Except.ok ()) (.call (Except.ok ()) (.call (Except.ok ()) ?_))
  refine .call (Except.ok ()) (.call (Except.ok ()) (.call (Except.ok ()) ?_))
  refine .call (Except.ok ()) (.loop (.call (Except.ok ()) ?_))
  refine .call (Except.ok ()) (.call (Except.ok ()) (.loop (.call (Except.ok 3) ?_)))
  exact .loop (.call (Except.ok ()) (.call (Except.ok ()) (.refl _)))

theorem leads_connect {names : Names} {U : Table} {group : Pid} {source target : Fd}
    {what : Referent} (h : U source = some what) :
    Leads (Desk.Step names) { table := U } (connectEvents group source target)
      ⟨Function.update (Function.update (Function.update U target (some what)) 3 none) 4 none,
        [], 0⟩ := by
  refine leads_append.mpr ⟨_, leads_of_isPlain ?_, ?_⟩
  · simp only [List.mem_cons, List.mem_map]
    rintro e (rfl | ⟨signal, -, rfl⟩) <;> exact ⟨id, id⟩
  · refine .cons (.of_table (.copies h)) (.cons (.of_table .closes) ?_)
    exact .cons (.of_table .closes) .nil

theorem not_creates_connect {group : Pid} {source target : Fd} :
    ∀ e ∈ connectEvents group source target, ¬ e.request.Creates := by
  simp only [connectEvents, List.mem_append, List.mem_cons, List.mem_map, List.not_mem_nil,
    or_false]
  rintro e ((rfl | ⟨signal, -, rfl⟩) | rfl | rfl | rfl) <;> exact id

/-- Opening any path gives this. -/
def namesOnly (what : Referent) : Names := fun _ _ given => given = what

theorem leads_cat (what : Referent) :
    ∃ d', Leads (Desk.Step (namesOnly what)) { table := onePipeTable }
      (connectEvents 7 3 0 ++ catRedirectEvents) d' ∧ d'.table 2 = some what := by
  let connected : Table :=
    Function.update (Function.update (Function.update onePipeTable 0 (some (.readEnd 0))) 3 none)
      4 none
  let redirected : Table := Function.update (Function.update connected 3 (some what)) 2 (some what)
  refine ⟨⟨Function.update redirected 3 none, [], 0⟩, ?_, rfl⟩
  refine leads_append.mpr ⟨⟨connected, [], 0⟩, leads_connect rfl, ?_⟩
  refine .cons (.of_table (.opens ⟨rfl, by decide, by decide⟩ rfl)) ?_
  exact .cons (.of_table (.copies rfl)) (.cons (.of_table .closes) .nil)

/-- The process that runs `cat`. -/
def catProcess : Running Empty :=
  .start (stageProcess 1 catStage [(3, 4)] (some 7) plainContext) onePipeTable

/-- The shell has started the pipeline before either stage does anything. -/
theorem trueToCat_started (names : Names) :
    ∃ w, Family.Reaches names (.start (startPipeline trueToCat plainContext) standardTable) w ∧
      w.HasStarted trueToCat plainContext ∧ w.pipes = [(3, 4)] ∧ w.children =
        [some (.start (stageProcess 0 trueStage [(3, 4)] none plainContext) onePipeTable),
          some catProcess] := by
  have hpipe : standardTable.Step names 0 (.call .pipe (.ok (3, 4))) onePipeTable :=
    .makesPipe ⟨rfl, by decide, by decide⟩ ⟨rfl, by decide, by decide⟩
  refine Family.exists_reaches (.shell (.exchange (.loop (.call _ (.refl _))) hpipe)) ?_
  refine Family.exists_reaches (.shell (.exchange (.fork (.ok 7) (.refl _)) rfl)) ?_
  refine Family.exists_reaches (.shell (.exchange (.call (Except.ok ()) (.refl _)) rfl)) ?_
  refine Family.exists_reaches (.shell (.exchange (.fork (.ok 8) (.refl _)) rfl)) ?_
  refine Family.exists_reaches (.shell (.exchange (.call (Except.ok ()) (.refl _)) rfl)) ?_
  refine Family.exists_reaches (.shell (.exchange (.call (Except.ok ()) (.refl _)) .closes)) ?_
  refine Family.exists_reaches (.shell (.exchange (.call (Except.ok ()) (.refl _)) .closes)) ?_
  refine ⟨_, .refl, ⟨7, { trueToCat with
    stages := [{ trueStage with pid := some 7 }, { catStage with pid := some 8 }]
    group := some 7 }, plainContext, ?_⟩, rfl, rfl⟩
  refine .loop (.call (Except.ok (3, 4)) (.fork (.ok 7) (.call (Except.ok ()) ?_)))
  refine .fork (.ok 8) (.call (Except.ok ()) (.call (Except.ok ()) ?_))
  exact .call (Except.ok ()) (.refl _)

/-- Then the first stage is set up and ends. -/
theorem trueToCat_trueEnded (names : Names) :
    ∃ w, Family.Reaches names (.start (startPipeline trueToCat plainContext) standardTable) w ∧
      w.HasStarted trueToCat plainContext ∧ w.pipes = [(3, 4)] ∧
      w.children = [none, some catProcess] := by
  obtain ⟨w, hreach, hstarted, hpipes, hchildren⟩ := trueToCat_started names
  have hfirst : w.children[0]? = some (some (.start
      (stageProcess 0 trueStage [(3, 4)] none plainContext) onePipeTable)) := by
    simp [hchildren]
  obtain ⟨rest, hset⟩ := Family.reaches_child hfirst (runs_setUp_true.bind _)
    (leads_connect rfl) rfl not_creates_connect
  refine ⟨_, (hreach.trans hset).tail (.ended 0), hstarted, hpipes, ?_⟩
  simp [hchildren]

/-- Then the second stage is set up, with what the path gave on descriptor 2. -/
theorem trueToCat_setUp (what : Referent) :
    ∃ w, Family.Reaches (namesOnly what)
        (.start (startPipeline trueToCat plainContext) standardTable) w ∧
      w.HasStarted trueToCat plainContext ∧ w.AllSetUp trueToCat plainContext ∧
      ∃ q, w.children = [none, some q] ∧ q.table 2 = some what := by
  obtain ⟨w, hreach, hstarted, hpipes, hchildren⟩ := trueToCat_trueEnded (namesOnly what)
  have hcat : w.children[1]? = some (some catProcess) := by simp [hchildren]
  obtain ⟨d', hleads, hopened⟩ := leads_cat what
  have hquiet : ∀ e ∈ connectEvents 7 3 0 ++ catRedirectEvents, ¬ e.request.Creates := by
    intro e he
    obtain he | he := List.mem_append.mp he
    · exact not_creates_connect e he
    · simp only [catRedirectEvents, List.mem_cons, List.not_mem_nil, or_false] at he
      obtain rfl | rfl | rfl := he <;> exact id
  obtain ⟨rest, hset⟩ := Family.reaches_child hcat (runs_setUp_cat.bind _) hleads rfl hquiet
  refine ⟨_, hreach.trans hset, hstarted, ?_, _, by rw [hchildren]; rfl, hopened⟩
  intro i stage q hi hq
  rw [hchildren] at hq
  match i with
  | 0 => cases hq
  | 1 =>
    cases hi
    cases hq
    show SetUp plainContext w.pipes 1 catStage _
    rw [hpipes]
    exact ⟨some 7, _, [], rfl, (List.append_nil _).symm, runs_setUp_cat⟩
  | i + 2 => cases hi

theorem standardTable_open : ∀ fd < 3, standardTable fd ≠ none := by
  intro fd hfd
  simp [standardTable, hfd]

theorem standardTable_noEnd (fd : Fd) (k : Nat) :
    standardTable fd ≠ some (.readEnd k) ∧ standardTable fd ≠ some (.writeEnd k) := by
  unfold standardTable
  split <;> simp

/-- However the shell and its children take their steps, a stage that has been through its
set-up is wired as its place in the pipeline and its redirections say. When the shell has
started the pipeline its own table is as before; when the stages are set up as well, each end of
a pipe is held by the neighbour that it is for, on the descriptor that it is for, and besides
only by stages that have opened it themselves. A pipe that no stage has opened is at its end as
soon as the stage that writes to it is gone. -/
theorem stages_wired {names : Names} {ts : List Token} {list : CommandList} {p : Pipeline}
    {ctx : Context} {T : Table} {w : Family (Except ShellError Started × Pipeline × Context)}
    (hbuild : build ts = .ok list) (hp : p ∈ list) (hopen : ∀ fd < 3, T fd ≠ none)
    (hT : ∀ fd k, T fd ≠ some (.readEnd k) ∧ T fd ≠ some (.writeEnd k))
    (h : Family.Reaches names (.start (startPipeline p ctx) T) w) :
    (∀ i stage q, p.stages[i]? = some stage → w.children[i]? = some (some q) →
      SetUp ctx w.pipes i stage q → Wired names T p.stages.length i stage q.table) ∧
    (w.HasStarted p ctx → w.shell.table = T ∧ w.children.length = p.stages.length ∧
      (w.AllSetUp p ctx →
        (w.EndsHeld fun i fd what => ∃ stage, p.stages[i]? = some stage ∧
          stage.Opens names fd what) ∧
        ∀ k, w.children[k]? = some none →
          (∀ stage ∈ p.stages, ∀ fd, ¬ stage.Opens names fd (.writeEnd k)) → w.AtEnd k)) := by
  have hwf : p.WellFormed :=
    (wellFormed_of_build (List.ne_nil_of_mem hp) hbuild).1.pipelines p hp
  have hlaunching := launching_of_reaches h
  refine ⟨?_, ?_⟩
  · intro i stage q hi hq hset
    exact (hlaunching.children i q hq).wired hwf hopen hi hset
  · intro hstarted
    obtain ⟨htable, hlength⟩ := hlaunching.started hstarted
    refine ⟨htable, hlength, fun hset => ?_⟩
    have hheld := hlaunching.endsHeld hwf hopen hT hset
    exact ⟨hheld, fun _ => atEnd_of_endsHeld htable hT hheld⟩

/-- Where `/proc/self/fd/0` is some file `cat` comes to the end of its input. -/
theorem stages_wired_true_to_cat :
    ∃ w, Family.Reaches (namesOnly (.file 7))
        (.start (startPipeline trueToCat plainContext) standardTable) w ∧
      w.HasStarted trueToCat plainContext ∧ w.AtEnd 0 ∧
      ∃ q, w.children = [none, some q] ∧
        Wired (namesOnly (.file 7)) standardTable 2 1 catStage q.table := by
  obtain ⟨w, hreach, hstarted, hset, q, hchildren, -⟩ := trueToCat_setUp (.file 7)
  have hfirst : w.children[0]? = some none := by simp [hchildren]
  have hcat : w.children[1]? = some (some q) := by simp [hchildren]
  obtain ⟨hwired, hrest⟩ := stages_wired build_trueToCat List.mem_cons_self standardTable_open
    standardTable_noEnd hreach
  obtain ⟨-, -, hheld⟩ := hrest hstarted
  refine ⟨w, hreach, hstarted, (hheld hset).2 0 hfirst ?_, q, hchildren, ?_⟩
  · intro stage _ fd hopens
    obtain ⟨stream, r, -, -, hnames⟩ := hopens
    cases hnames
  · exact hwired 1 catStage q rfl hcat (hset 1 catStage q rfl hcat)

/-- Where `/proc/self/fd/0` is the pipe itself `cat` holds the write end of its own input and
never comes to the end of it: the neighbours of a pipe are not always the only ones that hold
its ends, each on one descriptor. -/
theorem not_always_neighbours_only :
    ¬ ∀ (names : Names) (ts : List Token) (list : CommandList) (p : Pipeline) (ctx : Context)
      (T : Table) (w : Family (Except ShellError Started × Pipeline × Context)),
      build ts = .ok list → p ∈ list → (∀ fd < 3, T fd ≠ none) →
      (∀ fd k, T fd ≠ some (.readEnd k) ∧ T fd ≠ some (.writeEnd k)) →
      Family.Reaches names (.start (startPipeline p ctx) T) w → w.HasStarted p ctx →
      w.AllSetUp p ctx →
        w.EndsHeld (fun _ _ _ => False) ∧ ∀ k, w.children[k]? = some none → w.AtEnd k := by
  intro hall
  obtain ⟨w, hreach, hstarted, hset, q, hchildren, hopened⟩ := trueToCat_setUp (.writeEnd 0)
  have hfirst : w.children[0]? = some none := by simp [hchildren]
  obtain ⟨-, hend⟩ := hall _ _ _ _ _ _ w build_trueToCat List.mem_cons_self standardTable_open
    standardTable_noEnd hreach hstarted hset
  have hcat : some q ∈ w.children := by simp [hchildren]
  exact (hend 0 hfirst).2 q hcat 2 hopened

end JobShell
