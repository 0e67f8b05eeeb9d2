import JobShell.Proofs.Requests

/-!
The order in which the shell enrols the processes of a pipeline. Each is put into the group of
the first one before the next is started, so that a process learns the right group when it is
made. What the shell says of the pipeline in the end is what it has enrolled.
-/
namespace JobShell

open Program

/-- The processes that the shell has started, in order, and how many requests it has made that
one of them be put into a group. -/
structure Roll where
  children : List Pid := []
  asked : Nat := 0

def Roll.after (s : Roll) : Event → Roll
  | .fork _ (.ok pid) => { s with children := s.children ++ [pid] }
  | .call (.setGroup _ _) _ => { s with asked := s.asked + 1 }
  | _ => s

/-- The roll as a system in which every answer may come. -/
def Roll.Step (s : Roll) (e : Event) (s' : Roll) : Prop := s' = s.after e

/-- Whether a request is for a process to be put into a group. -/
def Request.Regroups : Request → Prop
  | .call (.setGroup _ _) => True
  | _ => False

/-- What starting the pipeline may ask for: with everybody enrolled the process of the next stage,
which is told the number of the first one, and otherwise that the newest process be put into the
group of the first. -/
def Enrols (p : Pipeline) (ctx : Context) (s : Roll) : Request → Prop
  | .fork child => s.asked = s.children.length ∧ ∃ stage pipes,
      p.stages[s.children.length]? = some stage ∧
      child = stageProcess s.children.length stage pipes s.children.head? ctx
  | .call (.setGroup pid group) => s.asked + 1 = s.children.length ∧
      s.children.getLast? = some pid ∧ s.children.head? = some group
  | _ => True

/-- The pipeline, when the shell has started it as the group `pgid`: the first process is the
group's, all of them are enrolled, and each stage has the number of its own. -/
structure Roll.Tells (s : Roll) (pgid : Pid) (stages : List Stage) (p' : Pipeline) : Prop where
  founder : s.children.head? = some pgid
  asked : s.asked = s.children.length
  count : s.children.length = stages.length
  group : p'.group = some pgid
  pids : p'.stages.map Stage.pid = s.children.map some

theorem Roll.after_of_plain {s : Roll} {e : Event} (hfork : e.request.topic ≠ .children)
    (hgroup : ¬ e.request.Regroups) : s.after e = s := by
  cases e with
  | fork child answer => exact absurd rfl hfork
  | call request answer => cases request <;> first | exact absurd trivial hgroup | rfl

section

variable {p : Pipeline} {ctx : Context} {s : Roll}

/-- Parts that have nothing to do with processes and groups may come at any time. -/
theorem Within.enrols {α : Type} {topics : List Topic} {q : Program α} (h : Within topics q)
    (ht : .children ∉ topics ∧ .other ∉ topics) :
    Ensures Roll.Step (Enrols p ctx) s q fun s' _ => s' = s := by
  have hgroup {r : Request} (hr : r.topic ∈ topics) : ¬ r.Regroups := by
    intro hregroups
    cases r with
    | fork child => cases hregroups
    | call request => cases request <;> first | exact ht.2 hr | cases hregroups
  refine h.asks.ensures ?_ ?_
  · rintro s e s' hr rfl
    exact Roll.after_of_plain (fun htopic => ht.1 (htopic ▸ hr)) (hgroup hr)
  · intro r hr
    cases r with
    | fork child => exact absurd hr ht.1
    | call request => cases request <;> first | exact absurd trivial (hgroup hr) | trivial

/-- From a point where all are enrolled, the remaining stages are started and enrolled one after
another. -/
theorem ensures_startStages_enrolled {pipes : List PipeEnds} {stages : List Stage}
    (hstages : stages = p.stages.drop s.children.length) (hasked : s.asked = s.children.length) :
    Ensures Roll.Step (Enrols p ctx) s
      (startStages pipes ctx s.children.length s.children.head? stages) fun s' r =>
        r.1 = .ok () → s'.asked = s'.children.length ∧ r.2.1 = s'.children.head? ∧
          ∃ new, s'.children = s.children ++ new ∧ new.length = stages.length ∧
            r.2.2.map Stage.pid = new.map some := by
  induction stages generalizing s with
  | nil => exact ensures_done fun _ => ⟨hasked, rfl, [], by simp, rfl, rfl⟩
  | cons stage stages ih =>
    have hstage : p.stages[s.children.length]? = some stage := by
      rw [← List.head?_drop, ← hstages]
      rfl
    refine Ensures.bind ?_
    refine ensures_start ⟨hasked, stage, pipes, hstage, rfl⟩ ?_
    rintro answer s₁ rfl
    cases answer with
    | error e => exact ensures_done (by rintro ⟨⟩)
    | ok child =>
      -- the number of the first process, whether that is the new one or not
      have hfounder : (s.children ++ [child]).head? = some (s.children.head?.getD child) := by
        cases s.children <;> rfl
      refine Ensures.bind ?_
      refine ensures_ask ⟨by simp [Roll.after, hasked], by simp [Roll.after], hfounder⟩ ?_
      rintro answer s₂ rfl
      let s₂ : Roll := { children := s.children ++ [child], asked := s.asked + 1 }
      have hlength : s₂.children.length = s.children.length + 1 := by simp [s₂]
      have hrest : stages = p.stages.drop s₂.children.length := by
        rw [hlength, ← List.drop_drop, ← hstages, List.drop_one, List.tail_cons]
      have hnext := ih (s := s₂) hrest (by rw [hlength, ← hasked])
      rw [hlength, show s₂.children.head? = _ from hfounder] at hnext
      refine Ensures.bind (hnext.mono ?_)
      rintro s₃ ⟨result, group, rest⟩ h
      refine ensures_done fun hresult => ?_
      obtain ⟨hasked', hgroup, new, hnew, hcount, hpids⟩ := h hresult
      refine ⟨hasked', hgroup, child :: new, ?_, ?_, ?_⟩
      · rw [hnew, List.append_assoc, List.singleton_append]
      · rw [List.length_cons, List.length_cons, hcount]
      · rw [List.map_cons, List.map_cons, hpids]

theorem ensures_startProcesses_enrolled :
    Ensures Roll.Step (Enrols p ctx) {} (startProcesses p ctx) fun s r =>
      ∀ pgid, r.1 = .ok (.group pgid) → s.Tells pgid p.stages r.2 := by
  unfold startProcesses
  split
  · exact ensures_done (by rintro _ ⟨⟩)
  · refine Ensures.bind (((within_openPipes [] _).enrols (by decide)).mono ?_)
    rintro s opened rfl
    cases opened with
    | error e => exact ensures_done (by rintro _ ⟨⟩)
    | ok pipes =>
      refine Ensures.bind ((ensures_startStages_enrolled (s := {}) rfl rfl).mono ?_)
      rintro s ⟨result, group, stages⟩ h
      refine Ensures.bind (((within_closePipes pipes).enrols (by decide)).mono ?_)
      rintro s' - rfl
      dsimp only at h ⊢
      split
      · exact ensures_done (by rintro _ ⟨⟩)
      · rename_i pgid
        refine ensures_done ?_
        rintro _ ⟨⟩
        obtain ⟨hasked, hgroup, new, hnew, hcount, hpids⟩ := h rfl
        obtain rfl : s'.children = new := hnew
        exact ⟨hgroup.symm, hasked, hcount, rfl, hpids⟩
      · exact ensures_done (by rintro _ ⟨⟩)

/-- Starting a pipeline enrols its processes. -/
theorem ensures_startPipeline_enrolled (p : Pipeline) (ctx : Context) :
    Ensures Roll.Step (Enrols p ctx) {} (startPipeline p ctx) fun s r =>
      ∀ pgid, r.1 = .ok (.group pgid) → s.Tells pgid p.stages r.2.1 := by
  have hprocesses : Ensures Roll.Step (Enrols p ctx) {}
      ((startProcesses p ctx).bind fun r => done (r.1, r.2, ctx)) fun s r =>
        ∀ pgid, r.1 = .ok (.group pgid) → s.Tells pgid p.stages r.2.1 :=
    Ensures.bind (ensures_startProcesses_enrolled.mono fun _ _ h => ensures_done h)
  unfold startPipeline
  split
  · split
    · refine Ensures.bind (((within_runInShell ctx _).enrols (by decide)).mono ?_)
      rintro s ⟨outcome, ctx'⟩ -
      refine ensures_done fun pgid hgroup => ?_
      cases outcome <;> cases hgroup
    · exact hprocesses
  · exact hprocesses

end

end JobShell
