import JobShell.Proofs.Reached

/-!
Command lists as and-or chains. A list falls into chains of pipelines connected by `&&` and
`||`, read from the left, and the chains run one after another, each by short circuit on
its own status. Running the flat list with the one last status comes to the same.
-/
namespace JobShell

open Program

inductive Connector where
  | and
  | or
  deriving DecidableEq, Repr

/-- Whether what follows the connector is run, given the status of what stands before it. -/
def Connector.Holds : Connector → Status → Prop
  | and, status => status = 0
  | or, status => status ≠ 0

def Join.connector? : Join → Option Connector
  | .and => some .and
  | .or => some .or
  | .sequence | .background | .none => Option.none

/-- Pipelines connected from the left. -/
inductive AndOr where
  | first (p : Pipeline)
  | next (left : AndOr) (connector : Connector) (p : Pipeline)
  deriving DecidableEq, Repr

namespace AndOr

/-- The join of the last pipeline. -/
def join : AndOr → Join
  | first p | next _ _ p => p.join

def pipelines : AndOr → List Pipeline
  | first p => [p]
  | next left _ p => left.pipelines ++ [p]

/-- Every pipeline but the last ends with the connector that follows it. -/
def Connected : AndOr → Prop
  | first _ => True
  | next left connector _ => left.Connected ∧ left.join.connector? = some connector

/-- The chain goes on as long as its last pipeline ends with a connector; then the next
chain begins. -/
def extend (chain : AndOr) : List Pipeline → List AndOr
  | [] => [chain]
  | p :: ps =>
    match chain.join.connector? with
    | some connector => (next chain connector p).extend ps
    | none => chain :: (first p).extend ps

end AndOr

/-- The chains of a command list. -/
def chains : CommandList → List AndOr
  | [] => []
  | p :: ps => (AndOr.first p).extend ps

/-- A pipeline that was reached, what it did and what became of it. -/
structure Turn where
  pipeline : Pipeline
  before : Context
  trace : List Event
  ending : Ending
  after : Context

/-- How far a list has come. -/
inductive Standing where
  /-- It goes on, with the status of the chain at hand, if that has one yet. -/
  | goesOn (status : Option Status)
  /-- The rest of it is dropped. -/
  | cut (flow : Flow)
  deriving DecidableEq, Repr

/-- An interrupt drops the rest of the list and `exit` ends the shell. -/
def Ending.standing : Ending → Standing
  | status s => .goesOn (some s)
  | background => .goesOn none
  | interrupted _ => .cut .continue
  | exit code => .cut (.exit code)

/-- The question whether an interrupt has reached the shell. -/
def inquiry (arrived : Bool) : Event := .call (.hasArrived Signal.sigint) arrived

/-- One pipeline comes up behind the chain status `status`. After an interrupt it is dropped
with all that follows; otherwise it is run exactly if it is `reached`. -/
inductive Attempts (reached : Prop) (status : Option Status) (p : Pipeline) (ctx : Context) :
    List Event → List Turn → Standing → Context → Prop
  | dropped : Attempts reached status p ctx [inquiry true] [] (.cut .continue) ctx
  | skipped : ¬ reached → Attempts reached status p ctx [inquiry false] [] (.goesOn status) ctx
  | ran {t : List Event} {ending : Ending} {ctx' : Context} :
      reached → TurnsOut p ctx t ending ctx' →
      Attempts reached status p ctx (inquiry false :: t) [⟨p, ctx, t, ending, ctx'⟩]
        ending.standing ctx'

/-- A chain is run by short circuit: after what stands on the left the last pipeline is
reached exactly if its connector holds of the status so far. -/
inductive AndOr.Evaluates : AndOr → Context → List Event → List Turn → Standing → Context → Prop
  | first {p : Pipeline} {ctx ctx' : Context} {t : List Event} {log : List Turn}
      {standing : Standing} : Attempts True none p ctx t log standing ctx' →
      Evaluates (.first p) ctx t log standing ctx'
  | cut {left : AndOr} {connector : Connector} {p : Pipeline} {ctx ctx' : Context}
      {t : List Event} {log : List Turn} {flow : Flow} :
      Evaluates left ctx t log (.cut flow) ctx' →
      Evaluates (.next left connector p) ctx t log (.cut flow) ctx'
  | next {left : AndOr} {connector : Connector} {p : Pipeline} {ctx ctx₁ ctx' : Context}
      {t u : List Event} {log log' : List Turn} {status : Option Status} {standing : Standing} :
      Evaluates left ctx t log (.goesOn status) ctx₁ →
      Attempts (∃ s ∈ status, connector.Holds s) status p ctx₁ u log' standing ctx' →
      Evaluates (.next left connector p) ctx (t ++ u) (log ++ log') standing ctx'

/-- Chains are run one after another until one is cut. -/
inductive EvaluatesAll :
    List AndOr → Context → List Event → List Turn → Flow → Context → Prop
  | nil {ctx : Context} : EvaluatesAll [] ctx [] [] .continue ctx
  | cut {chain : AndOr} {rest : List AndOr} {ctx ctx' : Context} {t : List Event}
      {log : List Turn} {flow : Flow} : chain.Evaluates ctx t log (.cut flow) ctx' →
      EvaluatesAll (chain :: rest) ctx t log flow ctx'
  | next {chain : AndOr} {rest : List AndOr} {ctx ctx₁ ctx' : Context} {t u : List Event}
      {log log' : List Turn} {status : Option Status} {flow : Flow} :
      chain.Evaluates ctx t log (.goesOn status) ctx₁ → EvaluatesAll rest ctx₁ u log' flow ctx' →
      EvaluatesAll (chain :: rest) ctx (t ++ u) (log ++ log') flow ctx'

/-- How a log stops a run, if at all: either none of its turns ends the list, or the last
one does. -/
inductive Stops : List Turn → Option Flow → Prop
  | goesOn {log : List Turn} : (∀ turn ∈ log, turn.ending.verdict = .next) → Stops log none
  | ended {log : List Turn} : (∀ turn ∈ log, turn.ending.verdict = .next) →
      Stops log (some .continue)
  | cut {log : List Turn} {turn : Turn} {flow : Flow} :
      (∀ turn ∈ log, turn.ending.verdict = .next) → turn.ending.standing = .cut flow →
      Stops (log ++ [turn]) (some flow)

/-- What the log of a run says of the pipelines `ps`, of which a run that is not stopped has
left none. -/
structure Report (ps : List Pipeline) (ctx : Context) (log : List Turn) (stop : Option Flow)
    (ctx' : Context) : Prop where
  inOrder : (log.map Turn.pipeline).Sublist ps
  turnsOut : ∀ turn ∈ log,
    TurnsOut turn.pipeline turn.before turn.trace turn.ending turn.after
  lastStatus : ctx'.lastStatus =
    (log.filterMap fun turn => turn.ending.status?).getLast?.getD ctx.lastStatus
  stops : Stops log stop

def Standing.flow? : Standing → Option Flow
  | .goesOn _ => none
  | cut flow => some flow

theorem Ending.standing_of_verdict {ending : Ending} (h : ending.verdict = .next) :
    ending.standing = .goesOn ending.status? := by
  cases ending with
  | status s => rfl
  | background => rfl
  | interrupted s => cases h
  | exit code => cases h

theorem Stops.all_next {log : List Turn} (h : Stops log none) :
    ∀ turn ∈ log, turn.ending.verdict = .next := by
  cases h with
  | goesOn h => exact h

/-- A log that stops with the end of the shell has the turn that ends it. -/
theorem Stops.exit_mem {log : List Turn} {code : Status} (h : Stops log (some (.exit code))) :
    ∃ turn ∈ log, turn.ending = .exit code := by
  generalize hf : some (Flow.exit code) = stop at h
  cases h with
  | goesOn _ => cases hf
  | ended _ => cases hf
  | @cut log turn flow _ hcut =>
    cases hf
    refine ⟨turn, by simp, ?_⟩
    cases he : turn.ending <;> simp_all [Ending.standing]

theorem Report.append {ps qs : List Pipeline} {ctx ctx₁ ctx' : Context} {log log' : List Turn}
    {stop : Option Flow} (h : Report ps ctx log none ctx₁) (h' : Report qs ctx₁ log' stop ctx') :
    Report (ps ++ qs) ctx (log ++ log') stop ctx' where
  inOrder := by
    rw [List.map_append]
    exact h.inOrder.append h'.inOrder
  turnsOut := by
    intro turn ht
    obtain ht | ht := List.mem_append.mp ht
    · exact h.turnsOut turn ht
    · exact h'.turnsOut turn ht
  lastStatus := by
    rw [h'.lastStatus, h.lastStatus, List.filterMap_append, List.getLast?_append]
    cases (log'.filterMap fun turn => turn.ending.status?).getLast? <;> rfl
  stops := by
    have hnext := h.stops.all_next
    have hboth (u : List Turn) (hu : ∀ turn ∈ u, turn.ending.verdict = .next) :
        ∀ turn ∈ log ++ u, turn.ending.verdict = .next := by
      intro turn ht
      obtain ht | ht := List.mem_append.mp ht
      · exact hnext turn ht
      · exact hu turn ht
    cases h'.stops with
    | goesOn hlog => exact .goesOn (hboth _ hlog)
    | ended hlog => exact .ended (hboth _ hlog)
    | @cut init turn flow hlog hturn =>
      rw [← List.append_assoc]
      exact .cut (hboth _ hlog) hturn

theorem Report.mono {ps qs : List Pipeline} {ctx ctx' : Context} {log : List Turn}
    {stop : Option Flow} (h : Report ps ctx log stop ctx') :
    Report (ps ++ qs) ctx log stop ctx' :=
  { h with inOrder := h.inOrder.trans (List.sublist_append_left ps qs) }

section

variable {reached : Prop} {status : Option Status} {p : Pipeline} {ctx ctx' : Context}
  {t : List Event} {log : List Turn} {standing : Standing}

theorem Attempts.report (h : Attempts reached status p ctx t log standing ctx') :
    Report [p] ctx log standing.flow? ctx' := by
  cases h with
  | dropped => exact ⟨List.nil_sublist _, by simp, rfl, .ended (by simp)⟩
  | skipped _ => exact ⟨List.nil_sublist _, by simp, rfl, .goesOn (by simp)⟩
  | @ran t ending ctx' _ h =>
    refine ⟨List.Sublist.refl _, by simpa using h, ?_, ?_⟩
    · rw [h.lastStatus]
      cases hs : ending.status? <;> simp [hs]
    · by_cases hv : ending.verdict = .next
      · rw [Ending.standing_of_verdict hv]
        exact .goesOn (by simpa using hv)
      · have hcut : ∃ flow, ending.standing = .cut flow := by
          cases ending with
          | status s => exact absurd rfl hv
          | background => exact absurd rfl hv
          | interrupted s => exact ⟨_, rfl⟩
          | exit code => exact ⟨_, rfl⟩
        obtain ⟨flow, hcut⟩ := hcut
        rw [hcut]
        exact .cut (List.forall_mem_nil _) hcut

end

theorem AndOr.Evaluates.report {chain : AndOr} {ctx ctx' : Context} {t : List Event}
    {log : List Turn} {standing : Standing} (h : chain.Evaluates ctx t log standing ctx') :
    Report chain.pipelines ctx log standing.flow? ctx' := by
  induction h with
  | first h => exact h.report
  | cut _ ih => exact ih.mono
  | next _ h ih => exact ih.append h.report

theorem EvaluatesAll.report {all : List AndOr} {ctx ctx' : Context} {t : List Event}
    {log : List Turn} {flow : Flow} (h : EvaluatesAll all ctx t log flow ctx') :
    Report (all.flatMap AndOr.pipelines) ctx log (some flow) ctx' := by
  induction h with
  | nil => exact ⟨List.Sublist.refl _, by simp, rfl, .ended (by simp)⟩
  | cut h => exact h.report.mono
  | next h _ ih => exact h.report.append ih

theorem AndOr.flatMap_extend (chain : AndOr) (ps : List Pipeline) :
    (chain.extend ps).flatMap AndOr.pipelines = chain.pipelines ++ ps := by
  induction ps generalizing chain with
  | nil => simp [extend]
  | cons p ps ih =>
    cases hc : chain.join.connector? with
    | some connector => simp [extend, hc, ih, pipelines]
    | none => simp [extend, hc, ih, pipelines]

theorem AndOr.connected_extend {chain : AndOr} (h : chain.Connected) (ps : List Pipeline) :
    ∀ c ∈ chain.extend ps, c.Connected := by
  induction ps generalizing chain with
  | nil => simpa [extend] using h
  | cons p ps ih =>
    cases hc : chain.join.connector? with
    | some connector =>
      simp only [extend, hc]
      exact ih ⟨h, hc⟩
    | none =>
      simp only [extend, hc, List.mem_cons, forall_eq_or_imp]
      exact ⟨h, ih trivial⟩

theorem AndOr.extend_ne_nil (chain : AndOr) (ps : List Pipeline) : chain.extend ps ≠ [] := by
  induction ps generalizing chain with
  | nil => simp [extend]
  | cons p ps ih =>
    cases hc : chain.join.connector? with
    | some connector => simpa [extend, hc] using ih _
    | none => simp [extend, hc]

theorem AndOr.join_extend (chain : AndOr) (ps : List Pipeline) :
    ∀ c ∈ (chain.extend ps).dropLast, c.join.connector? = none := by
  induction ps generalizing chain with
  | nil => simp [extend]
  | cons p ps ih =>
    cases hc : chain.join.connector? with
    | some connector => simpa only [extend, hc] using ih _
    | none =>
      simp only [extend, hc]
      rw [List.dropLast_cons_of_ne_nil (extend_ne_nil _ _)]
      simp only [List.mem_cons, forall_eq_or_imp]
      exact ⟨hc, ih _⟩

theorem reachable_iff (join : Join) (status : Status) :
    reachable (some join) status = true ↔
      ∀ connector ∈ join.connector?, connector.Holds status := by
  cases join <;> simp [reachable, Join.admitsAfter, Join.connector?, Connector.Holds]

/-- What a list does once a pipeline that was reached is dealt with. -/
def goOn (p : Pipeline) (ps : List Pipeline) : Verdict × Context → Program (Flow × Context)
  | (.next, ctx) => runAfter (some p.join) ctx ps
  | (.abandon, ctx) => done (.continue, ctx)
  | (.exit code, ctx) => done (.exit code, ctx)

section

variable {before : Option Join} {ctx ctx₁ ctx' : Context} {p : Pipeline} {ps : List Pipeline}
  {t : List Event} {flow : Flow} {ending : Ending} {arrived : Bool}
  {result : Flow × Context}

theorem runs_runAfter_arrived : Runs (runAfter before ctx (p :: ps)) t result ↔
    ∃ arrived u, t = inquiry arrived :: u ∧
      Runs (if arrived then done (.continue, ctx)
        else if reachable before ctx.lastStatus then (runReached p ctx).bind (goOn p ps)
        else runAfter (some p.join) ctx ps) u result := by
  constructor
  · intro h
    obtain ⟨_, u, arrived, rfl, hasked, hrest⟩ := runs_bind.mp h
    obtain rfl := runs_ask.mp hasked
    exact ⟨arrived, u, rfl, hrest⟩
  · rintro ⟨arrived, u, rfl, h⟩
    exact .call arrived h

/-- Behind a pipeline the list is cut or goes on, as its ending says. -/
theorem runs_goOn : Runs (goOn p ps (ending.verdict, ctx₁)) t (flow, ctx') ↔
    (ending.standing = .cut flow ∧ t = [] ∧ ctx' = ctx₁) ∨
    ∃ status, ending.standing = .goesOn status ∧
      Runs (runAfter (some p.join) ctx₁ ps) t (flow, ctx') := by
  cases ending with
  | status s => simp [goOn, Ending.verdict, Ending.standing]
  | background => simp [goOn, Ending.verdict, Ending.standing]
  | interrupted s => simp [goOn, Ending.verdict, Ending.standing, and_left_comm, eq_comm]
  | exit code => simp [goOn, Ending.verdict, Ending.standing, and_left_comm, eq_comm]

/-- A pipeline that is reached runs first, and then the list goes on. -/
theorem runs_runAfter_turn {u v : List Event} (hr : reachable before ctx.lastStatus = true)
    (hturn : TurnsOut p ctx u ending ctx₁) (h : Runs (goOn p ps (ending.verdict, ctx₁)) v result) :
    Runs (runAfter before ctx (p :: ps)) (inquiry false :: (u ++ v)) result := by
  refine runs_runAfter_arrived.mpr ⟨false, u ++ v, rfl, ?_⟩
  simp only [Bool.false_eq_true, ↓reduceIte, hr]
  exact runs_bind.mpr ⟨u, v, _, rfl, runs_runReached.mpr ⟨ending, hturn, rfl⟩, h⟩

/-- What a list does with its first pipeline. The status of the chain does not matter to it. -/
theorem runs_runAfter_cons (status : Option Status) :
    Runs (runAfter before ctx (p :: ps)) t (flow, ctx') ↔
      (∃ log, Attempts (reachable before ctx.lastStatus = true) status p ctx t log (.cut flow)
        ctx') ∨
      ∃ t₁ t₂ log status' ctx₁, t = t₁ ++ t₂ ∧
        Attempts (reachable before ctx.lastStatus = true) status p ctx t₁ log (.goesOn status')
          ctx₁ ∧
        Runs (runAfter (some p.join) ctx₁ ps) t₂ (flow, ctx') := by
  constructor
  · intro h
    obtain ⟨arrived, u, rfl, hrest⟩ := runs_runAfter_arrived.mp h
    cases arrived with
    | true =>
      obtain ⟨rfl, rfl, rfl⟩ := runs_done_pair.mp hrest
      exact .inl ⟨[], .dropped⟩
    | false =>
      simp only [Bool.false_eq_true, ↓reduceIte] at hrest
      split at hrest
      · rename_i hr
        obtain ⟨v, w, ⟨verdict, ctx₁⟩, rfl, hrun, hgo⟩ := runs_bind.mp hrest
        obtain ⟨ending, hturn, rfl⟩ := runs_runReached.mp hrun
        have hran : Attempts (reachable before ctx.lastStatus = true) status p ctx
            (inquiry false :: v) _ ending.standing ctx₁ := .ran hr hturn
        obtain ⟨hcut, rfl, rfl⟩ | ⟨status', hgoes, hps⟩ := runs_goOn.mp hgo
        · rw [List.append_nil]
          exact .inl ⟨_, hcut ▸ hran⟩
        · exact .inr ⟨inquiry false :: v, w, _, status', ctx₁, rfl, hgoes ▸ hran, hps⟩
      · rename_i hr
        exact .inr ⟨[inquiry false], u, _, _, ctx, rfl, .skipped hr, hrest⟩
  · rintro (⟨log, h⟩ | ⟨t₁, t₂, log, status', ctx₁, rfl, h, hrest⟩)
    · generalize hs : Standing.cut flow = standing at h
      cases h with
      | dropped =>
        cases hs
        exact runs_runAfter_arrived.mpr ⟨true, [], rfl, .refl _⟩
      | skipped _ => cases hs
      | @ran u ending _ hr hturn =>
        have hgo : Runs (goOn p ps (ending.verdict, ctx')) [] (flow, ctx') :=
          runs_goOn.mpr (.inl ⟨hs.symm, rfl, rfl⟩)
        have hrun := runs_runAfter_turn hr hturn hgo
        rwa [List.append_nil] at hrun
    · generalize hs : Standing.goesOn status' = standing at h
      cases h with
      | dropped => cases hs
      | skipped hr =>
        refine runs_runAfter_arrived.mpr ⟨false, t₂, rfl, ?_⟩
        simpa only [Bool.false_eq_true, ↓reduceIte, hr] using hrest
      | ran hr hturn =>
        exact runs_runAfter_turn hr hturn (runs_goOn.mpr (.inr ⟨status', hs.symm, hrest⟩))

end

theorem Attempts.congr {reached reached' : Prop} {status : Option Status} {p : Pipeline}
    {ctx ctx' : Context} {t : List Event} {log : List Turn} {standing : Standing}
    (hr : reached ↔ reached') (h : Attempts reached status p ctx t log standing ctx') :
    Attempts reached' status p ctx t log standing ctx' := by
  rwa [← propext hr]

/-- A pipeline behind a connector that goes on leaves the last status as the chain's. -/
theorem Attempts.status_eq {reached : Prop} {status status' : Option Status} {p : Pipeline}
    {ctx ctx' : Context} {t : List Event} {log : List Turn}
    (h : Attempts reached status p ctx t log (.goesOn status') ctx')
    (hp : p.join.connector?.isSome = true) (hs : reached ∨ status = some ctx.lastStatus) :
    status' = some ctx'.lastStatus := by
  generalize hg : Standing.goesOn status' = standing at h
  cases h with
  | dropped => cases hg
  | skipped hr =>
    cases hg
    exact hs.resolve_left hr
  | @ran t ending _ hr hturn =>
    have hb : p.isBackground = false := by
      cases hj : p.join <;> simp_all [Pipeline.isBackground, Join.connector?]
    have hl := hturn.lastStatus
    cases ending with
    | status s =>
      cases hg
      rw [hl]
      rfl
    | background => simpa [hb, Ending.status?] using hturn.isBackground (by simp)
    | interrupted s => cases hg
    | exit code => cases hg

/-- The status of a chain that may go on behind a connector is the last status. -/
theorem AndOr.Evaluates.status_eq {chain : AndOr} {ctx ctx' : Context} {t : List Event}
    {log : List Turn} {status : Option Status} (hc : chain.Connected)
    (h : chain.Evaluates ctx t log (.goesOn status) ctx')
    (hj : chain.join.connector?.isSome = true) : status = some ctx'.lastStatus := by
  generalize hs : Standing.goesOn status = standing at h
  induction h generalizing status with
  | first h =>
    subst hs
    exact h.status_eq hj (.inl trivial)
  | cut _ _ => cases hs
  | next _ h ih =>
    subst hs
    obtain ⟨hleft, hjoin⟩ := hc
    exact h.status_eq hj (.inr (ih hleft (by rw [hjoin]; rfl) rfl))

theorem evaluatesAll_cons {chain : AndOr} {rest : List AndOr} {ctx ctx' : Context}
    {t : List Event} {flow : Flow} :
    (∃ log, EvaluatesAll (chain :: rest) ctx t log flow ctx') ↔
      (∃ log, chain.Evaluates ctx t log (.cut flow) ctx') ∨
      ∃ t₁ t₂ log status ctx₁, t = t₁ ++ t₂ ∧ chain.Evaluates ctx t₁ log (.goesOn status) ctx₁ ∧
        ∃ log', EvaluatesAll rest ctx₁ t₂ log' flow ctx' := by
  constructor
  · rintro ⟨log, h⟩
    cases h with
    | cut h => exact .inl ⟨_, h⟩
    | next h hrest => exact .inr ⟨_, _, _, _, _, rfl, h, _, hrest⟩
  · rintro (⟨log, h⟩ | ⟨t₁, t₂, log, status, ctx₁, rfl, h, log', hrest⟩)
    · exact ⟨_, .cut h⟩
    · exact ⟨_, .next h hrest⟩

theorem evaluatesAll_nil (before : Option Join) {ctx ctx' : Context} {t : List Event}
    {flow : Flow} :
    (∃ log, EvaluatesAll [] ctx t log flow ctx') ↔
      Runs (runAfter before ctx []) t (flow, ctx') := by
  simp only [runAfter, pure_eq, runs_done, Prod.mk.injEq]
  constructor
  · rintro ⟨log, h⟩
    cases h
    exact ⟨rfl, rfl, rfl⟩
  · rintro ⟨rfl, rfl, rfl⟩
    exact ⟨[], .nil⟩

/-- The chains that begin with `chain` are run as the flat list is once it has come to the
end of `chain`. -/
theorem evaluatesAll_extend (chain : AndOr) (hc : chain.Connected) (ps : List Pipeline)
    {ctx ctx' : Context} {t : List Event} {flow : Flow} :
    (∃ log, EvaluatesAll (chain.extend ps) ctx t log flow ctx') ↔
      (∃ log, chain.Evaluates ctx t log (.cut flow) ctx') ∨
      ∃ t₁ t₂ log status ctx₁, t = t₁ ++ t₂ ∧ chain.Evaluates ctx t₁ log (.goesOn status) ctx₁ ∧
        Runs (runAfter (some chain.join) ctx₁ ps) t₂ (flow, ctx') := by
  induction ps generalizing chain ctx t with
  | nil =>
    simp only [AndOr.extend, evaluatesAll_cons]
    simp only [evaluatesAll_nil (some chain.join)]
  | cons p ps ih =>
    cases hj : chain.join.connector? with
    | some connector =>
      simp only [AndOr.extend, hj]
      rw [ih (.next chain connector p) ⟨hc, hj⟩]
      -- behind a connector the last status is the status of the chain
      have hreached {status : Option Status} {t : List Event} {log : List Turn} {ctx₁ : Context}
          (h : chain.Evaluates ctx t log (.goesOn status) ctx₁) :
          reachable (some chain.join) ctx₁.lastStatus = true ↔
            ∃ s ∈ status, connector.Holds s := by
        rw [reachable_iff, hj, h.status_eq hc (by rw [hj]; rfl)]
        simp
      constructor
      · rintro (⟨log, h⟩ | ⟨t₁, t₂, log, status, ctx₁, rfl, h, hrest⟩)
        · cases h with
          | cut h => exact .inl ⟨_, h⟩
          | @next _ _ _ _ _ _ _ _ _ _ status _ hleft h =>
            have hp := h.congr (hreached hleft).symm
            exact .inr ⟨_, _, _, _, _, rfl, hleft, (runs_runAfter_cons status).mpr (.inl ⟨_, hp⟩)⟩
        · cases h with
          | @next _ _ _ _ _ _ _ _ _ _ status _ hleft h =>
            have hp := h.congr (hreached hleft).symm
            exact .inr ⟨_, _, _, _, _, List.append_assoc .., hleft,
              (runs_runAfter_cons status).mpr (.inr ⟨_, _, _, _, _, rfl, hp, hrest⟩)⟩
      · rintro (⟨log, h⟩ | ⟨t₁, t₂, log, status, ctx₁, rfl, h, hrest⟩)
        · exact .inl ⟨_, .cut h⟩
        · obtain ⟨log', hp⟩ | ⟨u₁, u₂, log', status', ctx₂, rfl, hp, hrest⟩ :=
            (runs_runAfter_cons status).mp hrest
          · exact .inl ⟨_, .next h (hp.congr (hreached h))⟩
          · exact .inr ⟨_, _, _, _, _, (List.append_assoc ..).symm,
              .next h (hp.congr (hreached h)), hrest⟩
    | none =>
      simp only [AndOr.extend, hj, evaluatesAll_cons]
      -- behind any other join the next pipeline is always reached
      have hreached (ctx₁ : Context) :
          reachable (some chain.join) ctx₁.lastStatus = true ↔ True := by
        rw [reachable_iff, hj]
        simp
      refine or_congr Iff.rfl ?_
      constructor
      · rintro ⟨t₁, t₂, log, status, ctx₁, rfl, h, hrest⟩
        refine ⟨t₁, t₂, log, status, ctx₁, rfl, h, (runs_runAfter_cons none).mpr ?_⟩
        obtain ⟨log', hp⟩ | ⟨u₁, u₂, log', status', ctx₂, rfl, hp, hrest⟩ :=
          (ih (.first p) trivial).mp hrest
        · cases hp with
          | first hp => exact .inl ⟨_, hp.congr (hreached ctx₁).symm⟩
        · cases hp with
          | first hp => exact .inr ⟨u₁, u₂, _, _, ctx₂, rfl, hp.congr (hreached ctx₁).symm, hrest⟩
      · rintro ⟨t₁, t₂, log, status, ctx₁, rfl, h, hrest⟩
        refine ⟨t₁, t₂, log, status, ctx₁, rfl, h, (ih (.first p) trivial).mpr ?_⟩
        obtain ⟨log', hp⟩ | ⟨u₁, u₂, log', status', ctx₂, rfl, hp, hrest⟩ :=
          (runs_runAfter_cons none).mp hrest
        · exact .inl ⟨_, .first (hp.congr (hreached ctx₁))⟩
        · exact .inr ⟨u₁, u₂, _, _, ctx₂, rfl, .first (hp.congr (hreached ctx₁)), hrest⟩

theorem runs_runList {list : CommandList} {ctx ctx' : Context} {t : List Event} {flow : Flow} :
    Runs (runList list ctx) t (flow, ctx') ↔
      ∃ log, EvaluatesAll (chains list) ctx t log flow ctx' := by
  cases list with
  | nil => exact (evaluatesAll_nil none).symm
  | cons p ps =>
    rw [runList, runs_runAfter_cons none, chains, evaluatesAll_extend (.first p) trivial]
    constructor
    · rintro (⟨log, h⟩ | ⟨t₁, t₂, log, status, ctx₁, rfl, h, hrest⟩)
      · exact .inl ⟨_, .first (h.congr (by simp [reachable]))⟩
      · exact .inr ⟨t₁, t₂, _, _, ctx₁, rfl, .first (h.congr (by simp [reachable])), hrest⟩
    · rintro (⟨log, h⟩ | ⟨t₁, t₂, log, status, ctx₁, rfl, h, hrest⟩)
      · cases h with
        | first h => exact .inl ⟨_, h.congr (by simp [reachable])⟩
      · cases h with
        | first h => exact .inr ⟨t₁, t₂, _, _, ctx₁, rfl, h.congr (by simp [reachable]), hrest⟩

theorem flatMap_chains (list : CommandList) :
    (chains list).flatMap AndOr.pipelines = list := by
  cases list with
  | nil => rfl
  | cons p ps => exact AndOr.flatMap_extend (.first p) ps

/-- The second chain starts afresh: `a && b ; c || d` falls into two chains. -/
example (a b c d : List Stage) :
    chains [⟨a, .and, none, none⟩, ⟨b, .sequence, none, none⟩, ⟨c, .or, none, none⟩,
        ⟨d, .none, none, none⟩] =
      [.next (.first ⟨a, .and, none, none⟩) .and ⟨b, .sequence, none, none⟩,
        .next (.first ⟨c, .or, none, none⟩) .or ⟨d, .none, none, none⟩] := rfl

/-- A list is run as its and-or chains are. The log of the run holds the pipelines that are
reached, in written order; the last status is that of the last of them that left one, which
is each one outside the background; and what ends the shell is a lone `exit`, which leaves
the last status as it was. -/
theorem runs_runList_iff_chains (list : CommandList) :
    (chains list).flatMap AndOr.pipelines = list ∧
    (∀ chain ∈ chains list, chain.Connected) ∧
    (∀ chain ∈ (chains list).dropLast, chain.join.connector? = none) ∧
    ∀ (ctx ctx' : Context) (t : List Event) (flow : Flow),
      (Runs (runList list ctx) t (flow, ctx') ↔
        ∃ log, EvaluatesAll (chains list) ctx t log flow ctx') ∧
      ∀ log, EvaluatesAll (chains list) ctx t log flow ctx' →
        Report list ctx log (some flow) ctx' ∧
        ∀ turn ∈ log,
          ((∀ code, turn.ending ≠ .exit code) →
            turn.ending.status?.isSome = !turn.pipeline.isBackground) ∧
          ∀ code, turn.ending = .exit code →
            turn.after.lastStatus = turn.before.lastStatus ∧
            ∃ stage args, turn.pipeline.stages = [stage] ∧ stage.argv = "exit" :: args ∧
              exitStatus args.head? = .ok (.exit code) := by
  refine ⟨flatMap_chains list, ?_, ?_, ?_⟩
  · cases list with
    | nil => simp [chains]
    | cons p ps => exact AndOr.connected_extend (show (AndOr.first p).Connected from trivial) ps
  · cases list with
    | nil => simp [chains]
    | cons p ps => exact AndOr.join_extend (.first p) ps
  · intro ctx ctx' t flow
    refine ⟨runs_runList, fun log h => ?_⟩
    have hreport := h.report
    rw [flatMap_chains] at hreport
    refine ⟨hreport, fun turn ht => ?_⟩
    have hturn := hreport.turnsOut turn ht
    refine ⟨hturn.isBackground, fun code he => ?_⟩
    have hlast := hturn.lastStatus
    rw [he] at hturn hlast
    exact ⟨hlast, hturn.lone_exit⟩

end JobShell
