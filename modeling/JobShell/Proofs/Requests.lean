import JobShell.Proofs.Reached
import JobShell.Shell

/-!
What the parts of the shell ask for. Every request belongs to a topic, and of every part it is
told which topics its requests belong to. No part exits, and none aborts without need. Few parts
have to do with children, that is start a process or wait for one, and few with descriptors. A
part that has to do with neither is plain.
-/
namespace JobShell

open Program

inductive Topic where
  | children
  | descriptors
  | directory
  | output
  | terminal
  | interrupts
  | recording
  | reading
  | other
  deriving DecidableEq, Repr

@[simp] def Request.topic : Request → Topic
  | .fork _ | .call (.wait _ _) => .children
  | .call (.openFile _ _ _) | .call (.close _) | .call .pipe | .call (.duplicate _ _)
  | .call (.duplicateFrom _ _) => .descriptors
  | .call (.changeDirectory _) | .call .workingDirectory => .directory
  | .call (.write _ _) | .call .abort => .output
  | .call (.foreground _) | .call (.setForeground _ _) => .terminal
  | .call (.hasArrived _) | .call (.relayTo _) | .call (.kill _ _) => .interrupts
  | .call (.record _) | .call (.forget _) => .recording
  | .call (.read _ _) => .reading
  | _ => .other

theorem Event.WritesTo.topic_eq {fd : Fd} {e : Event} (h : e.WritesTo fd) :
    e.request.topic = .output := by
  obtain ⟨data, answer, rfl⟩ := h
  rfl

theorem Event.Refused.topic_eq {e : Event} (h : e.Refused) : e.request.topic = .output := by
  unfold Event.Refused at h
  split at h
  · rfl
  · exact h.elim

/-- All that the program asks for belongs to these topics. -/
def Within {α : Type} (topics : List Topic) (p : Program α) : Prop :=
  Stays (fun r => r.topic ∈ topics) p

section

variable {α β : Type} {topics topics' : List Topic} {p : Program α}

theorem Within.mono (h : Within topics p) (ht : topics ⊆ topics') : Within topics' p :=
  Stays.mono h fun _ hr => ht hr

theorem Within.bind {f : α → Program β} (h : Within topics p) (hf : ∀ a, Within topics (f a)) :
    Within topics (p.bind f) :=
  Stays.bind h hf

@[simp] theorem within_done (a : α) : Within topics (done a) := stays_done a

theorem within_ask [Nonempty β] {request : Call β} (h : (Request.call request).topic ∈ topics) :
    Within topics (ask request) :=
  stays_ask h

theorem within_retry {request : Call (Except Errno β)}
    (h : (Request.call request).topic ∈ topics)
    (hother : ∀ answer, ¬ (Event.call request answer).Refused := by exact fun _ => id) :
    Within topics (retry request) :=
  stays_retry h hother

theorem Within.asks (h : Within topics p) : Asks (fun r => r.topic ∈ topics) p := Stays.asks h

theorem Within.keepsRunning (h : Within topics p) : KeepsRunning p :=
  Stays.mono h fun _ _ => trivial

/-- Every exchange is about one of the topics. -/
theorem Within.events {t : List Event} {q : Program α} (h : Within topics p) (hs : Steps p t q) :
    ∀ e ∈ t, e.request.topic ∈ topics :=
  h.asks.events hs

end

theorem stays_waitFrom {only : Request → Prop} (last : Option Pid) (w : Waited) (pids : List Pid)
    (h : ∀ pid ∈ pids, only (.call (.wait pid { untraced := true }))) :
    Stays only (waitFrom last w pids) := by
  induction pids generalizing w with
  | nil => exact stays_done w
  | cons pid pids ih =>
    refine Stays.bind (stays_retry (h pid List.mem_cons_self)) ?_
    intro report
    exact ih _ fun pid' hp => h pid' (List.mem_cons_of_mem pid hp)

theorem stays_relay {only : Request → Prop} (group : Option Pid) (h : only (.call (.relayTo group)))
    (ha : only (.call (.hasArrived Signal.sigint)))
    (hk : ∀ target, only (.call (.kill target Signal.sigint))) :
    Stays only (relayInterruptsTo group) := by
  refine Stays.bind (stays_ask h) ?_
  intro _
  cases group with
  | none => exact stays_done ()
  | some pgid =>
    refine Stays.bind (stays_ask ha) ?_
    intro arrived
    cases arrived with
    | false => exact stays_done ()
    | true => exact Stays.bind (stays_ask (hk _)) fun _ => stays_done ()

theorem stays_closePipes {only : Request → Prop} (pipes : List PipeEnds)
    (hc : ∀ fd, only (.call (.close fd))) : Stays only (closePipes pipes) := by
  induction pipes with
  | nil => exact stays_done ()
  | cons ends pipes ih =>
    exact Stays.bind (stays_ask (hc _)) fun _ => Stays.bind (stays_ask (hc _)) fun _ => ih

section

variable {only : Request → Prop} (r : Redirection)
  (ho : only (.call (.openFile r.target r.mode.flags 0o666)))
  (hd : ∀ source target, only (.call (.duplicate source target)))
  (hc : ∀ fd, only (.call (.close fd)))

include ho hd hc

theorem stays_apply : Stays only r.apply := by
  refine Stays.bind (stays_retry ho) ?_
  intro opened
  cases opened with
  | error e => exact stays_done _
  | ok fd =>
    dsimp only
    split
    · exact stays_done _
    · refine Stays.bind (stays_retry (hd _ _)) fun moved => ?_
      refine Stays.bind (stays_ask (hc _)) fun _ => ?_
      cases moved with
      | error e => exact stays_done _
      | ok value => exact stays_done _

theorem stays_applyInStage : Stays only r.applyInStage := by
  refine Stays.bind (stays_retry ho) fun opened => ?_
  cases opened with
  | error e => exact stays_done _
  | ok fd =>
    dsimp only
    split
    · exact stays_done _
    · refine Stays.bind (stays_retry (hd _ _)) fun moved => ?_
      cases moved with
      | error e => exact stays_done _
      | ok value => exact Stays.bind (stays_ask (hc _)) fun _ => stays_done _

end

theorem stays_setDefaults {only : Request → Prop} (signals : List Signal)
    (h : ∀ signal, only (.call (.setDisposition signal .default))) :
    Stays only (setDefaults signals) := by
  induction signals with
  | nil => exact stays_done _
  | cons signal signals ih =>
    refine Stays.bind (stays_ask (h signal)) fun set => ?_
    cases set with
    | error e => exact stays_done _
    | ok value => exact ih

theorem stays_execStage {only : Request → Prop} (env : Environment) (stage : Stage)
    (h : ∀ name argv, only (.call (.execSearch name argv env))) :
    Stays only (execStage stage env) := by
  unfold execStage
  split
  · exact stays_done _
  · refine Stays.bind (stays_ask (h _ _)) fun e => ?_
    split <;> exact stays_done _

/-- A shell in the root directory that has no terminal. -/
def plainContext : Context := { terminal := { fd := none, shellGroup := 1 }, cwd := "/" }

section

variable (ctx : Context)

theorem within_printText (text : String) : Within [.output] (printText 2 text) :=
  stays_printText (by simp) (by simp) text

theorem stays_announceDone {only : Request → Prop} (ho : ∀ data, only (.call (.write 2 data)))
    (ha : only (.call .abort)) (jobs : List Job) : Stays only (announceDone jobs) := by
  induction jobs with
  | nil => exact stays_done ()
  | cons job jobs ih => exact Stays.bind (stays_printText ho ha _) fun _ => ih

theorem within_announceDone (jobs : List Job) : Within [.output] (announceDone jobs) :=
  stays_announceDone (by simp) (by simp) jobs

theorem stays_reap {only : Request → Prop}
    (hw : ∀ pid, only (.call (.wait pid { noHang := true })))
    (ho : ∀ data, only (.call (.write 2 data))) (ha : only (.call .abort)) :
    Stays only ctx.reap := by
  have hstill (pids : List Pid) : Stays only (stillThere pids) := by
    induction pids with
    | nil => exact stays_done _
    | cons pid pids ih =>
      refine Stays.bind (stays_ask (hw pid)) fun answer => ?_
      cases decodeWait answer <;>
        exact Stays.bind (stays_done _) fun keep => Stays.bind ih fun rest => stays_done _
  have hcollect (jobs : List Job) : Stays only (collectEach jobs) := by
    induction jobs with
    | nil => exact stays_done _
    | cons job jobs ih =>
      exact Stays.bind (hstill _) fun pids => Stays.bind ih fun rest => stays_done _
  refine Stays.bind (Stays.bind (hcollect _) fun _ => stays_done _) ?_
  rintro ⟨finished, jobs⟩
  dsimp only
  split
  · exact Stays.bind (stays_announceDone ho ha finished) fun _ => stays_done _
  · exact stays_done _

theorem within_reap : Within [.children, .output] ctx.reap :=
  stays_reap ctx (by simp) (by simp) (by simp)

theorem within_waitStages (p : Pipeline) : Within [.children] (waitStages p) :=
  stays_waitFrom _ _ _ fun _ _ => by simp

theorem within_changeDir (path : Option String) : Within [.directory] (changeDir path ctx) := by
  unfold changeDir
  dsimp only
  split
  · exact within_done _
  · refine Within.bind (within_ask (by simp)) ?_
    intro changed
    cases changed with
    | error e => exact within_done _
    | ok value =>
      exact Within.bind (within_ask (by simp)) fun _ => within_done _

theorem within_runBuiltin (argv : List String) :
    Within [.directory, .output] (runBuiltin argv ctx) := by
  have htry : Within [.directory] (tryBuiltin argv ctx) := by
    unfold tryBuiltin
    split
    · exact within_changeDir ctx _
    · exact within_done _
    · exact within_done _
  refine Within.bind (htry.mono (by simp)) ?_
  rintro ⟨result, ctx'⟩
  cases result with
  | ok outcome => exact within_done _
  | error e => exact Within.bind ((within_printText _).mono (by simp)) fun _ => within_done _

theorem within_setForeground (terminal : Terminal) (group : Option Pid) :
    Within [.terminal] (terminal.setForeground group) := by
  unfold Terminal.setForeground
  split
  · exact within_done _
  · refine Within.bind (within_ask (by simp)) ?_
    intro seen
    cases seen with
    | error e => exact within_done _
    | ok current =>
      dsimp only
      split
      · exact within_done _
      · refine Within.bind (within_ask (by simp)) ?_
        intro moved
        cases moved with
        | error e => exact within_done _
        | ok value => exact within_done _

theorem within_takeCharge (terminal : Terminal) :
    Within [.terminal, .recording, .other] terminal.takeCharge := by
  refine Within.bind (within_ask (by simp)) fun _ => ?_
  refine Within.bind (within_ask (by simp)) fun _ => ?_
  exact Within.bind ((within_setForeground terminal none).mono (by simp)) fun _ => within_done _

theorem within_relay (group : Option Pid) : Within [.interrupts] (relayInterruptsTo group) :=
  stays_relay group (by simp) (by simp)
    fun _ => by simp

theorem within_lend (pgid : Pid) : Within [.terminal, .interrupts] (lend pgid ctx) := by
  refine Within.bind ((within_setForeground ctx.terminal (some pgid)).mono (by simp)) ?_
  rintro ⟨result, terminal⟩
  cases result with
  | ok value => exact within_done _
  | error e => exact Within.bind ((within_relay (some pgid)).mono (by simp)) fun _ => within_done _

theorem within_takeBack (handed : Bool) :
    Within [.terminal, .interrupts] (takeBack handed ctx) := by
  cases handed with
  | true =>
    exact Within.bind ((within_setForeground ctx.terminal none).mono (by simp)) fun _ =>
      within_done _
  | false => exact Within.bind ((within_relay none).mono (by simp)) fun _ => within_done _

theorem within_detach (p : Pipeline) (pgid : Pid) : Within [.output] (detach p pgid ctx) := by
  unfold detach
  dsimp only
  split
  · exact Within.bind (within_printText _) fun _ => within_done _
  · exact within_done _

theorem within_suspend (p : Pipeline) (pgid : Pid) (stopped : List Pid) :
    Within [.output] (suspend p pgid stopped ctx) := by
  unfold suspend
  dsimp only
  split
  · exact Within.bind (within_printText _) fun _ => within_done _
  · exact within_done _

theorem within_runForeground (p : Pipeline) (pgid : Pid) :
    Within [.terminal, .interrupts, .children, .output] (runForeground p pgid ctx) := by
  refine Within.bind ((within_lend ctx pgid).mono (by simp)) ?_
  rintro ⟨handed, ctx₁⟩
  refine Within.bind ((within_waitStages p).mono (by simp)) fun waited => ?_
  refine Within.bind ((within_takeBack ctx₁ handed).mono (by simp)) fun ctx₂ => ?_
  dsimp only
  split
  · exact Within.bind (within_done _) fun _ => within_done _
  · exact Within.bind ((within_suspend _ _ pgid _).mono (by simp)) fun _ => within_done _

theorem within_setDefaults (signals : List Signal) : Within [.other] (setDefaults signals) :=
  stays_setDefaults signals fun _ => by simp

theorem within_execStage (stage : Stage) (env : Environment) :
    Within [.other] (execStage stage env) :=
  stays_execStage env stage fun _ _ => by simp

theorem within_closePipes (pipes : List PipeEnds) : Within [.descriptors] (closePipes pipes) :=
  stays_closePipes pipes fun _ => by simp

theorem within_openPipes (made : List PipeEnds) (count : Nat) :
    Within [.descriptors] (openPipes made count) := by
  induction count generalizing made with
  | zero => exact within_done _
  | succ count ih =>
    refine Within.bind (within_retry (by simp)) ?_
    intro opened
    cases opened with
    | ok ends => exact ih (made ++ [ends])
    | error e => exact Within.bind (within_closePipes made) fun _ => within_done _

theorem within_apply (r : Redirection) : Within [.descriptors] r.apply :=
  stays_apply r (by simp) (fun _ _ => by simp)
    fun _ => by simp

theorem within_redirectShell (saved : List SavedFd) (rs : List Redirection) :
    Within [.descriptors] (redirectShell saved rs) := by
  induction rs generalizing saved with
  | nil => exact within_done _
  | cons r rs ih =>
    refine Within.bind (within_ask (by simp)) fun copy => ?_
    refine Within.bind (within_apply r) fun applied => ?_
    cases applied with
    | error e => exact within_done _
    | ok value => exact ih _

theorem within_restoreShell (saved : List SavedFd) :
    Within [.descriptors] (restoreShell saved) := by
  induction saved with
  | nil => exact within_done ()
  | cons entry saved ih =>
    obtain ⟨fd, copy⟩ := entry
    cases copy with
    | none => exact Within.bind (within_ask (by simp)) fun _ => ih
    | some copy =>
      exact Within.bind (within_retry (by simp)) fun _ =>
        Within.bind (within_ask (by simp)) fun _ => ih

theorem within_runInShell (stage : Stage) :
    Within [.descriptors, .directory, .output] (runInShell stage ctx) := by
  unfold runInShell
  split
  · exact within_done _
  · refine Within.bind ((within_redirectShell [] _).mono (by simp)) ?_
    rintro ⟨applied, saved⟩
    have hrestore : Within [.descriptors, .directory, .output] (restoreShell saved) :=
      (within_restoreShell saved).mono (by simp)
    cases applied with
    | ok value =>
      exact Within.bind ((within_runBuiltin ctx _).mono (by simp)) fun _ =>
        Within.bind hrestore fun _ => within_done _
    | error e =>
      exact Within.bind hrestore fun _ =>
        Within.bind ((within_printText _).mono (by simp)) fun _ => within_done _

theorem within_startStages (pipes : List PipeEnds) (index : Nat) (group : Option Pid)
    (stages : List Stage) :
    Within [.children, .other] (startStages pipes ctx index group stages) := by
  induction stages generalizing index group with
  | nil => exact within_done _
  | cons stage stages ih =>
    refine Within.bind (stays_start (by simp)) fun started => ?_
    cases started with
    | error e => exact within_done _
    | ok child =>
      exact Within.bind (within_ask (by simp)) fun _ =>
        Within.bind (ih _ _) fun _ => within_done _

theorem within_startProcesses (p : Pipeline) :
    Within [.children, .descriptors, .other] (startProcesses p ctx) := by
  unfold startProcesses
  split
  · exact within_done _
  · refine Within.bind ((within_openPipes [] _).mono (by simp)) fun made => ?_
    cases made with
    | error e => exact within_done _
    | ok pipes =>
      refine Within.bind ((within_startStages ctx pipes 0 none _).mono (by simp)) ?_
      rintro ⟨result, group, stages⟩
      refine Within.bind ((within_closePipes pipes).mono (by simp)) fun _ => ?_
      cases result with
      | error e => exact within_done _
      | ok value => cases group <;> exact within_done _

theorem within_startPipeline (p : Pipeline) :
    Within [.children, .descriptors, .directory, .output, .other] (startPipeline p ctx) := by
  have hprocesses : Within [.children, .descriptors, .directory, .output, .other]
      ((startProcesses p ctx).bind fun started => done (started.1, started.2, ctx)) :=
    Within.bind ((within_startProcesses ctx p).mono (by simp)) fun _ => within_done _
  unfold startPipeline
  split
  · split
    · exact Within.bind ((within_runInShell ctx _).mono (by simp)) fun _ => within_done _
    · exact hprocesses
  · exact hprocesses

theorem within_conclude (p : Pipeline) (started : Except ShellError Started) :
    Within [.children, .output, .terminal, .interrupts, .other] (conclude p ctx started) := by
  cases started with
  | error e =>
    exact Within.bind ((within_printText _).mono (by simp)) fun _ =>
      Within.bind ((within_waitStages p).mono (by simp)) fun _ => within_done _
  | ok started =>
    cases started with
    | finished outcome => cases outcome <;> exact within_done _
    | group pgid =>
      dsimp only [conclude]
      split
      · exact Within.bind ((within_detach ctx p pgid).mono (by simp)) fun _ => within_done _
      · exact Within.bind ((within_runForeground ctx p pgid).mono (by simp)) fun _ =>
          within_done _

theorem within_runReached (p : Pipeline) :
    Within [.children, .descriptors, .directory, .output, .terminal, .interrupts, .other]
      (runReached p ctx) := by
  rw [runReached_eq]
  exact Within.bind ((within_startPipeline ctx p).mono (by simp)) fun started =>
    (within_conclude started.2.2 started.2.1 started.1).mono (by simp)

theorem within_runAfter (before : Option Join) (ps : List Pipeline) :
    Within [.children, .descriptors, .directory, .output, .terminal, .interrupts, .other]
      (runAfter before ctx ps) := by
  induction ps generalizing before ctx with
  | nil => exact within_done _
  | cons p ps ih =>
    refine Within.bind (within_ask (by simp)) fun arrived => ?_
    split
    · exact within_done _
    · split
      · refine Within.bind (within_runReached ctx p) ?_
        rintro ⟨verdict, ctx'⟩
        cases verdict with
        | next => exact ih ctx' _
        | abandon => exact within_done _
        | exit code => exact within_done _
      · exact ih ctx _

theorem within_perform (line : String) :
    Within [.children, .descriptors, .directory, .output, .terminal, .interrupts, .other]
      (ctx.perform line) := by
  unfold Context.perform
  split
  · exact within_done _
  · exact within_runAfter ctx none _
  · exact Within.bind ((within_printText _).mono (by simp)) fun _ => within_done _

theorem within_evaluate (line : String) :
    Within [.children, .descriptors, .directory, .output, .terminal, .interrupts, .recording,
      .other] (ctx.evaluate line) := by
  refine Within.bind (within_ask (by simp)) fun _ => ?_
  refine Within.bind ((within_reap ctx).mono (by simp)) fun ctx₁ => ?_
  refine Within.bind ((within_perform ctx₁ line).mono (by simp)) fun worked => ?_
  exact Within.bind ((within_reap worked.2).mono (by simp)) fun _ => within_done _

end

/-- Whether a request is about child processes. -/
def Request.OnChildren : Request → Prop
  | .fork _ | .call (.wait _ _) => True
  | _ => False

/-- Whether a request is about the descriptors of the process. -/
def Request.OnDescriptors : Request → Prop
  | .call (.openFile _ _ _) | .call (.close _) | .call .pipe | .call (.duplicate _ _)
  | .call (.duplicateFrom _ _) => True
  | _ => False

def Request.IsPlain (r : Request) : Prop := ¬ r.OnChildren ∧ ¬ r.OnDescriptors

theorem Request.OnChildren.topic_eq {r : Request} (h : r.OnChildren) : r.topic = .children := by
  unfold OnChildren at h
  split at h
  · rfl
  · rfl
  · cases h

theorem Request.OnDescriptors.topic_eq {r : Request} (h : r.OnDescriptors) :
    r.topic = .descriptors := by
  unfold OnDescriptors at h
  split at h
  · rfl
  · rfl
  · rfl
  · rfl
  · rfl
  · cases h

/-- The program neither starts a process nor waits for one. -/
def Idle {α : Type} (p : Program α) : Prop := Asks (fun r => ¬ r.OnChildren) p

def Plain {α : Type} (p : Program α) : Prop := Asks Request.IsPlain p

section

variable {α : Type} {topics : List Topic} {p : Program α}

theorem Within.idle (h : Within topics p) (ht : .children ∉ topics) : Idle p :=
  Asks.mono h.asks fun _ hr hc => ht (hc.topic_eq ▸ hr)

theorem Within.plain (h : Within topics p) (ht : .children ∉ topics ∧ .descriptors ∉ topics) :
    Plain p :=
  Asks.mono h.asks fun _ hr =>
    ⟨fun hc => ht.1 (hc.topic_eq ▸ hr), fun hd => ht.2 (hd.topic_eq ▸ hr)⟩

end

/-- What the process of a stage asks for once it has joined its group. -/
def Request.OfStage : Request → Prop
  | .call (.setDisposition _ _) | .call (.duplicate _ _) | .call (.close _)
  | .call (.openFile _ _ _) | .call (.execSearch _ _ _) | .call (.changeDirectory _)
  | .call .workingDirectory | .call (.write _ _) | .call .abort => True
  | _ => False

theorem Request.ofStage_of_topic {r : Request} (h : r.topic ∈ [Topic.directory, Topic.output]) :
    r.OfStage := by
  cases r with
  | fork child => simp at h
  | call request => cases request <;> trivial

/-- A stage joins its group first of all. Nothing that it asks for later has to do with groups,
new processes or new pipes. -/
theorem stageProcess_eq (i : Nat) (stage : Stage) (pipes : List PipeEnds) (group : Option Pid)
    (ctx : Context) :
    ∃ next, stageProcess i stage pipes group ctx = .call (.setGroup 0 (group.getD 0)) next ∧
      ∀ answer, Asks Request.OfStage (next answer) := by
  have hfail (e : SetupError) : Asks Request.OfStage (stageProcess.fail e) :=
    (asks_writeText (fun _ => trivial) _).bind fun _ => asks_exit _
  have hconnect (source : Option Fd) (target : Fd) :
      Asks Request.OfStage (connect source target) := by
    cases source with
    | none => exact asks_done _
    | some fd =>
      refine Asks.bind (asks_retry.mpr trivial) fun answer => ?_
      cases answer <;> exact asks_done _
  have hredirect (rs : List Redirection) : Asks Request.OfStage (applyRedirections rs) := by
    induction rs with
    | nil => exact asks_done _
    | cons r rs ih =>
      refine Asks.bind (stays_applyInStage r trivial (fun _ _ => trivial) fun _ => trivial).asks ?_
      intro applied
      cases applied with
      | error e => exact asks_done _
      | ok value => exact ih
  refine ⟨_, rfl, fun answer => ?_⟩
  change Asks _ ((resetForChild.bind _).bind _)
  refine Asks.bind ?_ fun result => ?_
  · refine Asks.bind (stays_setDefaults _ fun _ => trivial).asks fun reset => ?_
    cases reset with
    | error e => exact asks_done _
    | ok value =>
      refine (hconnect _ 0).bind fun reading => ?_
      cases reading with
      | error e => exact asks_done _
      | ok value =>
        refine (hconnect _ 1).bind fun writing => ?_
        cases writing with
        | error e => exact asks_done _
        | ok value =>
          exact (stays_closePipes pipes fun _ => trivial).asks.bind fun _ =>
            hredirect stage.redirections
  · cases result with
    | error e => exact hfail e
    | ok value =>
      dsimp only
      split
      · exact (Asks.mono (within_runBuiltin ctx _).asks fun _ => Request.ofStage_of_topic).bind
          fun _ => asks_exit _
      · exact (stays_execStage _ stage fun _ _ => trivial).asks.bind hfail

end JobShell
