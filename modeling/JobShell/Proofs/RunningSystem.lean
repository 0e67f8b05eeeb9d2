import JobShell.Proofs.Bystanders
import JobShell.Proofs.Children
import JobShell.Proofs.Descriptors
import JobShell.Proofs.DirectoryTree
import JobShell.Proofs.Foreground
import JobShell.Proofs.WorkingDirectory

/-!
The system that programs run on is one of those that the results about the shell are stated for.
What it answers a process is a step of the ledger of its children, of its descriptors, of its
working directory and of the terminal's foreground, and what other processes do meanwhile leaves
the first three alone.
-/
namespace JobShell

/-- An exchange of a process with the system. -/
inductive Kernel.Exchanges (k : Kernel) (pid : Pid) : Event → Kernel → Prop
  | call {p : Process} {β : Type} {request : Call β} {answer : β} {k' : Kernel} :
      p ∈ k.processes → p.pid = pid → p.hasEnded = false →
      k.perform p request = .answer answer k' → k.Exchanges pid (.call request answer) k'
  | fork {p : Process} {child : Program Empty} : p ∈ k.processes → p.pid = pid →
      p.hasEnded = false → k.Exchanges pid (.fork child (.ok (k.spawn p).1)) (k.spawn p).2

/-- A request for descriptors of the caller or its directory. -/
def Request.IsOwn : Request → Prop
  | .call request => Kernel.manner request = .own
  | .fork _ => False

def Request.RemovesDirectory : Request → Prop
  | .call request => Kernel.RemovesDirectory request
  | .fork _ => False

/-- The ledger of a process lists the children that are on the list of processes. -/
def Kernel.Books (k : Kernel) (pid : Pid) (l : Ledger) : Prop :=
  ∀ child, child ∈ l.uncollected ↔ k.IsChild pid child

namespace Kernel

/-- What an open file is to a process that has made the pipes `own`. -/
def referent (own : List PipeId) (id : OpenId) : Subject × Access → Referent
  | (.pipe pipe, access) =>
    match own.idxOf? pipe with
    | some n => if access = .write then .writeEnd n else .readEnd n
    | none => .file id
  | _ => .file id

def refers (k : Kernel) (own : List PipeId) (slot : Slot) : Referent :=
  ((k.openFile? slot.file).map OpenFile.kind).elim (.file slot.file) (referent own slot.file)

/-- What the descriptors of a process refer to. -/
def tableOf (k : Kernel) (own : List PipeId) (files : Numbered Slot) : Table :=
  fun fd => (files.get? fd).map (k.refers own)

/-- The table of a process, which has made the pipes `own`, is the one on the desk. -/
structure Shows (k : Kernel) (pid : Pid) (own : List PipeId) (d : Desk) : Prop where
  pipes : own.length = d.pipes.length
  made : ∀ id ∈ own, id < k.pipes.size
  table : ∀ p ∈ k.processes, p.pid = pid → p.hasEnded = false → d.table = k.tableOf own p.files

/-- The process is not short of descriptors for its copies. -/
def HasRoom (k : Kernel) (pid : Pid) : Event → Prop
  | .call (.duplicate _ target) _ => ∀ p ∈ k.processes, p.pid = pid → target < p.fileLimit
  | .call (.duplicateFrom _ least) _ =>
    ∀ p ∈ k.processes, p.pid = pid → p.files.firstFree least < p.fileLimit
  | _ => True

/-- Where a process is, as it would be told. -/
def Stands (k : Kernel) (pid : Pid) (dir : Path) : Prop :=
  ∃ p ∈ k.processes, p.pid = pid ∧ p.hasEnded = false ∧ k.workingDirectory p = .ok dir

section

variable {k k' : Kernel} {pid : Pid} {e : Event} {l : Ledger}

/-- But for a wait, a process keeps its children in its own calls, too. -/
theorem Sound.keeps_perform {p : Process} {β : Type} {request : Call β} {answer : β}
    (hk : k.Sound) (hp : p ∈ k.processes) (hlive : p.hasEnded = false)
    (h : k.perform p request = .answer answer k') (hwait : ¬ (Request.call request).OnChildren) :
    Keeps pid k k' := by
  have hkept (hkept : Spares pid k (k.perform p request).kernel) : Keeps pid k k' := by
    rw [h] at hkept
    exact hkept.toKeeps
  by_cases hspecial : manner request = .special
  · cases request with
    | wait target options => exact absurd trivial hwait
    | setGroup target group => exact hkept (hk.spares_setGroup target group)
    | setForeground fd group => exact hkept (hk.spares_setForeground fd group)
    | _ => cases hspecial
  · obtain ⟨p₁, hserves⟩ := hk.serves_perform hp hlive hspecial
    rw [h] at hserves
    exact hserves.keeps hk hp

theorem Sound.leaves_perform {p : Process} {β : Type} {request : Call β} {answer : β}
    (hk : k.Sound) (hp : p ∈ k.processes) (hlive : p.hasEnded = false)
    (h : k.perform p request = .answer answer k') :
    k'.Sound ∧ Extends k k' ∧ (manner request ≠ .own → Holds pid k k') := by
  have hspared (hkept : Spares pid k (k.perform p request).kernel) :
      k'.Sound ∧ Extends k k' ∧ (manner request ≠ .own → Holds pid k k') := by
    rw [h] at hkept
    exact ⟨hkept.sound, hkept.toExtends, fun _ => hkept.own⟩
  cases hmanner : manner request with
  | quiet => exact hmanner ▸ hspared ((hk.drifts_quiet hp hmanner).toAges.spares hk)
  | files => exact hmanner ▸ hspared ((hk.ages_files hmanner).spares hk)
  | own =>
    obtain ⟨p₁, hserves⟩ := hk.serves_perform hp hlive (by rw [hmanner]; decide)
    rw [h] at hserves
    have hkeeps : Keeps pid k k' := hserves.keeps hk hp
    exact ⟨hkeeps.sound, hkeeps.toExtends, fun hne => absurd rfl hne⟩
  | leaving =>
    obtain rfl := hk.eq_of_leaving hp hmanner h
    exact ⟨hk, .refl _, fun _ => .refl pid _⟩
  | special =>
    cases request with
    | wait target options =>
      obtain ⟨hsound, hextends, hholds⟩ := hk.wait_leaves h
      exact ⟨hsound, hextends, fun _ => hholds⟩
    | setGroup target group => exact hmanner ▸ hspared (hk.spares_setGroup target group)
    | setForeground fd group => exact hmanner ▸ hspared (hk.spares_setForeground fd group)
    | _ => cases hmanner

/-- What every exchange leaves alone. -/
theorem Exchanges.leaves (h : k.Exchanges pid e k') (hk : k.Sound) :
    k'.Sound ∧ Extends k k' ∧ (¬ e.request.IsOwn → Holds pid k k') := by
  cases h with
  | call hp hpid hlive hanswer => exact hk.leaves_perform hp hlive hanswer
  | @fork p child hp hpid hlive =>
    refine ⟨hk.spawn hp, extends_spawn, fun _ q hq hqpid hqlive => ?_⟩
    obtain hq | rfl := mem_spawn.mp hq
    · exact ⟨q, hq, hqpid, hqlive, rfl, rfl⟩
    · exact absurd (hpid.trans hqpid.symm) (Int.ne_of_lt (hk.numbered p hp).2)

theorem Keeps.books (h : Keeps pid k k') (hlives : k'.Lives pid) (hl : k.Books pid l) :
    k'.Books pid l := fun child => (hl child).trans (h.children hlives child).symm

theorem isChild_removeProcess {target child : Pid} :
    (k.removeProcess target).IsChild pid child ↔ child ≠ target ∧ k.IsChild pid child := by
  constructor
  · rintro ⟨q, hq, rfl, hparent⟩
    obtain ⟨hq, hne⟩ := List.mem_filter.mp hq
    exact ⟨by simpa using hne, q, hq, rfl, hparent⟩
  · rintro ⟨hne, q, hq, rfl, hparent⟩
    exact ⟨q, List.mem_filter.mpr ⟨hq, by simpa using hne⟩, rfl, hparent⟩

theorem isChild_spawn {p : Process} {child : Pid} : (k.spawn p).2.IsChild p.pid child ↔
    k.IsChild p.pid child ∨ child = k.nextPid := by
  constructor
  · rintro ⟨q, hq, rfl, hparent⟩
    obtain hq | rfl := mem_spawn.mp hq
    · exact .inl ⟨q, hq, rfl, hparent⟩
    · exact .inr rfl
  · rintro (⟨q, hq, rfl, hparent⟩ | rfl)
    · exact ⟨q, mem_spawn.mpr (.inl hq), rfl, hparent⟩
    · exact ⟨_, mem_spawn.mpr (.inr rfl), rfl, rfl⟩

/-- Waiting is a step of the ledger. -/
theorem ledger_wait {p : Process} {target : Pid} {options : WaitOptions}
    {answer : Except Errno WaitStatus} (hk : k.Sound) (hp : p ∈ k.processes)
    (h : k.wait p target options = .answer answer k') (hlives : k'.Lives p.pid) (hl : l.Sound)
    (hbooks : k.Books p.pid l) :
    ∃ l', l.Step (.call (.wait target options) answer) l' ∧ k'.Books p.pid l' := by
  obtain ⟨hnone, rfl⟩ | ⟨child, hchild, rfl, hparent, hcases⟩ := hk.wait_cases h
  · refine ⟨l, .unknown fun hmem => ?_, hbooks⟩
    obtain ⟨child, hchild, hpid, hparent⟩ := (hbooks target).mp hmem
    exact hnone child hchild hpid hparent
  · have hmem : child.pid ∈ l.uncollected := (hbooks child.pid).mpr ⟨child, hchild, rfl, hparent⟩
    have hfits := hk.fits child hchild
    obtain ⟨status, hlife, rfl, rfl⟩ | ⟨signal, hlife, huntraced, rfl, rfl⟩ | ⟨hnow, rfl, rfl⟩ :=
      hcases
    · rw [hlife] at hfits
      refine ⟨_, .collected hmem hfits, fun id => ?_⟩
      dsimp only
      rw [hl.nodup.mem_erase_iff, hbooks id, isChild_removeProcess]
    · rw [hlife] at hfits
      have hkept : Spares p.pid k _ := hk.spares_reported hchild hlife
      exact ⟨_, .stopped hmem huntraced hfits, hkept.toKeeps.books hlives hbooks⟩
    · exact ⟨l, .alive hmem hnow, hbooks⟩

/-- A new child has a number that no other has. -/
theorem ledger_fork {p : Process} {child : Program Empty} (hk : k.Sound)
    (hbooks : k.Books p.pid l) :
    ∃ l', l.Step (.fork child (.ok (k.spawn p).1)) l' ∧ (k.spawn p).2.Books p.pid l' := by
  refine ⟨_, .started fun hmem => ?_, fun id => ?_⟩
  · obtain ⟨q, hq, hpid, -⟩ := (hbooks _).mp hmem
    exact Int.ne_of_lt (hk.numbered q hq).2 hpid
  · rw [List.mem_append, List.mem_singleton, hbooks id, isChild_spawn]
    rfl

/-- Every exchange is a step of the ledger. -/
theorem Exchanges.ledger_step (h : k.Exchanges pid e k') (hk : k.Sound) (hlives : k'.Lives pid)
    (hl : l.Sound) (hbooks : k.Books pid l) : ∃ l', l.Step e l' ∧ k'.Books pid l' := by
  cases h with
  | @call p β request answer _ hp hpid hlive hanswer =>
    subst hpid
    by_cases hwait : (Request.call request).OnChildren
    · cases request with
      | wait target options => exact ledger_wait hk hp hanswer hlives hl hbooks
      | _ => cases hwait
    · exact ⟨l, .other hwait, (hk.keeps_perform hp hlive hanswer hwait).books hlives hbooks⟩
  | @fork p child hp hpid hlive =>
    subst hpid
    exact ledger_fork hk hbooks

theorem Serves.foreground {p p₁ : Process} (h : Serves p p₁ k k') :
    k'.tty.foreground = k.tty.foreground := by
  obtain ⟨k₁, hgrows, -, hages⟩ := h.between
  exact hages.foreground.trans hgrows.foreground

theorem foreground_perform {p : Process} {β : Type} {request : Call β} {answer : β}
    (hk : k.Sound) (hp : p ∈ k.processes) (hlive : p.hasEnded = false)
    (h : k.perform p request = .answer answer k') (hset : ¬ (Request.call request).OnForeground) :
    k'.tty.foreground = k.tty.foreground := by
  by_cases hspecial : manner request = .special
  · cases request with
    | wait target options =>
      obtain ⟨-, rfl⟩ | ⟨child, -, -, -, hcases⟩ := hk.wait_cases h
      · rfl
      · obtain ⟨_, -, -, rfl⟩ | ⟨_, -, -, -, rfl⟩ | ⟨-, -, rfl⟩ := hcases <;> rfl
    | setGroup target group =>
      obtain ⟨_, -, -, -, -, rfl⟩ | ⟨-, rfl, -⟩ :=
        hk.setGroup_cases (Outcome.now_eq_answer.mp h) <;> rfl
    | setForeground fd group => exact absurd trivial hset
    | _ => cases hspecial
  · obtain ⟨p₁, hserves⟩ := hk.serves_perform hp hlive hspecial
    rw [h] at hserves
    exact hserves.foreground

theorem setForeground_cases {p : Process} {fd : Fd} {group : Pid} {answer : Except Errno Unit}
    (h : k.setForeground p fd group = .answer answer k') :
    answer = .ok () ∧ k' = { k with tty := { k.tty with foreground := group } } ∨
      (∃ e, answer = .error e) ∧ k' = k := by
  unfold setForeground at h
  split at h
  · cases h
    exact .inr ⟨⟨_, rfl⟩, rfl⟩
  · split at h
    · cases h
    · split at h
      · cases h
        exact .inl ⟨rfl, rfl⟩
      · cases h
        exact .inr ⟨⟨_, rfl⟩, rfl⟩

/-- Every exchange is a step of the terminal's foreground, and only what asks for it moves it. -/
theorem Exchanges.foreground_step (h : k.Exchanges pid e k') (hk : k.Sound) :
    Foreground False k.tty.foreground e k'.tty.foreground := by
  cases h with
  | @call p β request answer _ hp hpid hlive hanswer =>
    have hsame (hset : ¬ (Request.call request).OnForeground) :=
      foreground_perform hk hp hlive hanswer hset
    cases request with
    | foreground fd =>
      cases hanswer
      refine ⟨rfl, fun seen hseen => ?_⟩
      unfold Kernel.foreground at hseen
      cases hcheck : k.checkTerminal p fd with
      | error e => simp [hcheck, Except.map] at hseen
      | ok value => simpa [hcheck, Except.map] using hseen.symm
    | setForeground fd group =>
      obtain ⟨rfl, rfl⟩ | ⟨⟨e, rfl⟩, rfl⟩ := setForeground_cases hanswer <;> rfl
    | wait target options => exact .inr (hsame id)
    | _ => exact hsame id
  | @fork p child hp hpid hlive =>
    obtain ⟨k₁, hgrows, heq⟩ := spawn_spec k p
    change (k.spawn p).2.tty.foreground = k.tty.foreground
    rw [heq]
    exact hgrows.foreground

end

section

variable {k k' : Kernel} {pid : Pid} {own : List PipeId} {files : Numbered Slot} {d : Desk}

theorem lowestFree_firstFree (hfiles : files.Ordered) (least : Nat) :
    (k.tableOf own files).LowestFree least (files.firstFree least) := by
  obtain ⟨⟨hbound, hclosed⟩, hlowest⟩ := Numbered.isLeast_firstFree hfiles least
  refine ⟨by rw [tableOf, hclosed, Option.map_none], hbound, fun n hlt hle hnone => ?_⟩
  exact absurd (hlowest ⟨hle, Option.map_eq_none_iff.mp hnone⟩) (Nat.not_le_of_lt hlt)

theorem tableOf_put (fd : Fd) (slot : Slot) : k.tableOf own (files.put fd slot) =
    Function.update (k.tableOf own files) fd (some (k.refers own slot)) := by
  funext n
  rw [tableOf, Numbered.get?_put, Function.update_apply]
  split <;> rfl

theorem tableOf_erase (fd : Fd) :
    k.tableOf own (files.erase fd) = Function.update (k.tableOf own files) fd none := by
  funext n
  rw [tableOf, Numbered.get?_erase, Function.update_apply]
  split <;> rfl

/-- Open files stay what they are. -/
theorem tableOf_eq (hk : k.Sound) {p : Process} (hp : p ∈ k.processes)
    (hkinds : ∀ id file, k.openFile? id = some file →
      ∃ file', k'.openFile? id = some file' ∧ file'.kind = file.kind) :
    k'.tableOf own p.files = k.tableOf own p.files := by
  funext fd
  refine Option.map_congr fun slot hslot => ?_
  have hentry := (Numbered.get?_eq_some_iff (hk.ordered p hp)).mp hslot
  have hlt := hk.opened p hp slot.file (mem_openIds.mpr (.inl ⟨_, hentry, rfl⟩))
  have hfile : k.openFile? slot.file = some k.openFiles[slot.file] := Array.getElem?_eq_getElem hlt
  obtain ⟨file', hfile', hkind⟩ := hkinds slot.file _ hfile
  simp only [refers, hfile, hfile', Option.map_some, hkind]

theorem idxOf?_append_of_ne {pipe new : PipeId} (h : pipe ≠ new) :
    (own ++ [new]).idxOf? pipe = own.idxOf? pipe := by
  have hne : (new == pipe) = false := by simpa using h.symm
  simp [List.idxOf?, List.findIdx?_append, hne]

theorem idxOf?_append_new {new : PipeId} (h : new ∉ own) :
    (own ++ [new]).idxOf? new = some own.length := by
  have hnone : own.findIdx? (· == new) = none := List.idxOf?_eq_none_iff.mpr h
  simp [List.idxOf?, List.findIdx?_append, hnone]

/-- A new pipe is none of those that anything was open on before. -/
theorem tableOf_append (hk : k.Sound) {p : Process} (hp : p ∈ k.processes) :
    k.tableOf (own ++ [k.pipes.size]) p.files = k.tableOf own p.files := by
  funext fd
  refine Option.map_congr fun slot hslot => ?_
  have hentry := (Numbered.get?_eq_some_iff (hk.ordered p hp)).mp hslot
  have hlt := hk.opened p hp slot.file (mem_openIds.mpr (.inl ⟨_, hentry, rfl⟩))
  have hfile : k.openFile? slot.file = some k.openFiles[slot.file] := Array.getElem?_eq_getElem hlt
  have hpiped := hk.piped _ (Array.getElem_mem hlt)
  simp only [refers, hfile, Option.map_some, Option.elim_some]
  unfold OpenFile.kind referent
  split
  · rename_i heq
    rw [idxOf?_append_of_ne (Nat.ne_of_lt (hpiped _ (congrArg Prod.fst heq)))]
  · rfl

theorem refers_new {id : OpenId} {access : Access} (hmade : ∀ id ∈ own, id < k.pipes.size)
    (h : (k'.openFile? id).map OpenFile.kind = some (.pipe k.pipes.size, access)) :
    k'.refers (own ++ [k.pipes.size]) { file := id } =
      if access = .write then .writeEnd own.length else .readEnd own.length := by
  have hnew : k.pipes.size ∉ own := fun hmem => Nat.lt_irrefl _ (hmade _ hmem)
  simp only [refers, h, Option.elim_some, referent, idxOf?_append_new hnew]

/-- Any path may lead anywhere. -/
def anything : Names := fun _ _ _ => True

variable {p p₁ : Process} {e : Event} {T : Table}

theorem Shows.next (hd : k.Shows pid own d) (he : ¬ e.request.Creates)
    (hpipes : k.pipes.size ≤ k'.pipes.size) (hstep : d.table.Step anything d.pipes.length e T)
    (htable : ∀ p' ∈ k'.processes, p'.pid = pid → p'.hasEnded = false →
      T = k'.tableOf own p'.files) :
    ∃ own' d', d.Step anything e d' ∧ k'.Shows pid own' d' := by
  refine ⟨own, _, .of_table hstep, ?_, fun id hid => Nat.lt_of_lt_of_le (hd.made id hid) hpipes,
    htable⟩
  rw [newPipes_eq_nil he, List.append_nil]
  exact hd.pipes

/-- Where the caller keeps its descriptors, its desk is as it was. -/
theorem Shows.same (hd : k.Shows pid own d) (he : ¬ e.request.Creates)
    (hstep : d.table.Step anything d.pipes.length e d.table) (hk : k.Sound)
    (hextends : Extends k k') (hholds : Holds pid k k') :
    ∃ own' d', d.Step anything e d' ∧ k'.Shows pid own' d' := by
  refine hd.next he hextends.pipes hstep fun p' hp' hpid hlive => ?_
  obtain ⟨p, hp, hpid, hlive, heq, -⟩ := hholds p' hp' hpid hlive
  rw [hd.table p hp hpid hlive, heq, tableOf_eq hk hp hextends.kinds]

/-- Where a call gives the caller other descriptors, so does the step. -/
theorem Shows.served (hd : k.Shows p.pid own d) (he : ¬ e.request.Creates) (hk : k.Sound)
    (hp : p ∈ k.processes) (hserves : Serves p p₁ k k')
    (hstep : d.table.Step anything d.pipes.length e (k'.tableOf own p₁.files)) :
    ∃ own' d', d.Step anything e d' ∧ k'.Shows p.pid own' d' := by
  have hkeeps : Keeps p.pid k k' := hserves.keeps hk hp
  refine hd.next he hkeeps.pipes hstep fun p' hp' hpid hlive => ?_
  rw [(hserves.own hp' hpid hlive).2.1]

theorem Shows.spared (hd : k.Shows pid own d) (hk : k.Sound) (hkept : Spares pid k k') :
    k'.Shows pid own d := by
  refine ⟨hd.pipes, fun id hid => Nat.lt_of_lt_of_le (hd.made id hid) hkept.pipes, ?_⟩
  intro p' hp' hpid hlive
  obtain ⟨p, hp, hpid, hlive, heq, -⟩ := hkept.own p' hp' hpid hlive
  rw [hd.table p hp hpid hlive, heq, tableOf_eq hk hp hkept.kinds]

theorem Shows.old (hd : k.Shows p.pid own d) (hk : k.Sound) (hp : p ∈ k.processes)
    (hlive : p.hasEnded = false) (hserves : Serves p p₁ k k') :
    k'.tableOf own p.files = d.table := by
  have hkeeps : Keeps p.pid k k' := hserves.keeps hk hp
  rw [hd.table p hp rfl hlive]
  exact tableOf_eq hk hp hkeeps.kinds

theorem Shows.lowestFree (hd : k.Shows p.pid own d) (hk : k.Sound) (hp : p ∈ k.processes)
    (hlive : p.hasEnded = false) (least : Nat) :
    d.table.LowestFree least (p.files.firstFree least) := by
  rw [hd.table p hp rfl hlive]
  exact lowestFree_firstFree (hk.ordered p hp) least

/-- What a descriptor is a copy of is what it refers to. -/
theorem Shows.source (hd : k.Shows p.pid own d) (hk : k.Sound) (hp : p ∈ k.processes)
    (hlive : p.hasEnded = false) (hserves : Serves p p₁ k k') {fd : Fd} {slot copy : Slot}
    (hslot : p.files.get? fd = some slot) (hcopy : copy.file = slot.file) :
    d.table fd = some (k'.refers own copy) := by
  rw [← hd.old hk hp hlive hserves, tableOf, hslot, Option.map_some, refers, refers, hcopy]

theorem Shows.get? (hd : k.Shows p.pid own d) (hp : p ∈ k.processes) (hlive : p.hasEnded = false)
    (fd : Fd) : d.table fd = (p.files.get? fd).map (k.refers own) := by
  rw [hd.table p hp rfl hlive]
  rfl

section

variable (hk : k.Sound) (hp : p ∈ k.processes) (hlive : p.hasEnded = false)
  (hd : k.Shows p.pid own d)

include hk hp hlive hd

theorem desk_openPath {path : String} {flags : OpenFlags} {permissions : Nat}
    {answer : Except Errno Fd} (h : k.openPath p path flags permissions = .answer answer k') :
    ∃ own' d', d.Step anything (.call (.openFile path flags permissions) answer) d' ∧
      k'.Shows p.pid own' d' := by
  obtain ⟨files, opening, hserves, hfiles⟩ := hk.opens_openPath hp path flags permissions
  rw [h] at hserves hfiles
  change Serves p { p with files, opening } k k' at hserves
  refine hd.served id hk hp hserves ?_
  cases answer with
  | error e =>
    rw [hfiles, hd.old hk hp hlive hserves]
    rfl
  | ok fd =>
    obtain ⟨rfl, slot, hslot⟩ := hfiles
    rw [hslot, tableOf_put, hd.old hk hp hlive hserves]
    exact .opens (hd.lowestFree hk hp hlive 0) trivial

theorem desk_close {fd : Fd} {answer : Except Errno Unit} (h : k.close p fd = (answer, k')) :
    ∃ own' d', d.Step anything (.call (.close fd) answer) d' ∧ k'.Shows p.pid own' d' := by
  obtain hserves | ⟨hclosed, rfl⟩ := hk.close_cases hp h
  · refine hd.served id hk hp hserves ?_
    rw [tableOf_erase, hd.old hk hp hlive hserves]
    exact .closes
  · refine hd.same id ?_ hk (.refl _) (.refl _ _)
    have hnone : d.table fd = none := by rw [hd.get? hp hlive, hclosed, Option.map_none]
    exact Function.eq_update_self_iff.mpr hnone

theorem desk_makePipe {answer : Except Errno (Fd × Fd)} (h : k.makePipe p = (answer, k')) :
    ∃ own' d', d.Step anything (.call .pipe answer) d' ∧ k'.Shows p.pid own' d' := by
  obtain ⟨reading, writing, readEnd, writeEnd, rfl, rfl, rfl, hread, hwrite, hsize, hserves⟩ |
    ⟨⟨e, rfl⟩, rfl⟩ := hk.makePipe_cases hp h
  · have hkeeps : Keeps p.pid k k' := hserves.keeps hk hp
    -- What was open before is open on older pipes.
    have hold : k'.tableOf (own ++ [k.pipes.size]) p.files = d.table := by
      rw [tableOf_eq hk hp hkeeps.kinds, tableOf_append hk hp, hd.table p hp rfl hlive]
    have hreads : k'.refers (own ++ [k.pipes.size]) { file := readEnd } =
        .readEnd d.pipes.length := by
      rw [refers_new hd.made hread, if_neg nofun, hd.pipes]
    have hwrites : k'.refers (own ++ [k.pipes.size]) { file := writeEnd } =
        .writeEnd d.pipes.length := by
      rw [refers_new hd.made hwrite, if_pos rfl, hd.pipes]
    have hordered : (p.files.put (p.files.firstFree 0) { file := readEnd }).Ordered :=
      (hk.ordered p hp).put _ _
    have hwriting : (k'.tableOf (own ++ [k.pipes.size]) _).LowestFree 0 _ :=
      lowestFree_firstFree hordered 0
    rw [tableOf_put, hold, hreads] at hwriting
    refine ⟨own ++ [k.pipes.size], _, .of_table (.makesPipe (hd.lowestFree hk hp hlive 0) hwriting),
      ?_, ?_, fun p' hp' hpid hlive' => ?_⟩
    · simp [Event.newPipes, hd.pipes]
    · intro id hid
      obtain hid | hid := List.mem_append.mp hid
      · exact Nat.lt_of_lt_of_le (hd.made id hid) hkeeps.pipes
      · rw [List.mem_singleton.mp hid, hsize]
        exact Nat.lt_succ_self _
    · rw [(hserves.own hp' hpid hlive').2.1, tableOf_put, tableOf_put, hold, hreads, hwrites]
  · exact ⟨own, _, .of_table rfl, by simpa [Event.newPipes] using hd.pipes, hd.made, hd.table⟩

theorem desk_duplicate {source target : Fd} {answer : Except Errno Unit}
    (h : k.duplicate p source target = (answer, k')) (hroom : target < p.fileLimit) :
    ∃ own' d', d.Step anything (.call (.duplicate source target) answer) d' ∧
      k'.Shows p.pid own' d' := by
  obtain ⟨slot, rfl, hslot, ⟨rfl, rfl⟩ | hserves⟩ | ⟨⟨e, rfl⟩, rfl, hfails⟩ :=
    hk.duplicate_cases hp h
  · have hsource := hd.source hk hp hlive ((Ages.refl _).serves hk hp) hslot rfl
    refine hd.same id ⟨_, hsource, ?_⟩ hk (.refl _) (.refl _ _)
    exact Function.eq_update_self_iff.mpr hsource
  · refine hd.served id hk hp hserves ?_
    rw [tableOf_put, hd.old hk hp hlive hserves]
    exact .copies (hd.source hk hp hlive hserves hslot rfl)
  · refine hd.same id ⟨.inr ?_, rfl⟩ hk (.refl _) (.refl _ _)
    have hclosed := hfails.resolve_right (Nat.not_le_of_lt hroom)
    rw [hd.get? hp hlive, hclosed, Option.map_none]

theorem desk_duplicateFrom {source least : Fd} {answer : Except Errno Fd}
    (h : k.duplicateFrom p source least = (answer, k'))
    (hroom : p.files.firstFree least < p.fileLimit) :
    ∃ own' d', d.Step anything (.call (.duplicateFrom source least) answer) d' ∧
      k'.Shows p.pid own' d' := by
  obtain ⟨slot, _, rfl, hslot, rfl, hserves⟩ | ⟨⟨e, rfl⟩, rfl, hfails⟩ :=
    hk.duplicateFrom_cases hp h
  · refine hd.served id hk hp hserves ?_
    rw [tableOf_put, hd.old hk hp hlive hserves]
    exact .saves (hd.lowestFree hk hp hlive least) (hd.source hk hp hlive hserves hslot rfl)
  · refine hd.same id ⟨?_, rfl⟩ hk (.refl _) (.refl _ _)
    have hclosed := hfails.resolve_right (Nat.not_le_of_lt hroom)
    rw [hd.get? hp hlive, hclosed, Option.map_none]

theorem desk_changeDirectory {path : Path} {answer : Except Errno Unit}
    (h : k.changeDirectory p path = (answer, k')) :
    ∃ own' d', d.Step anything (.call (.changeDirectory path) answer) d' ∧
      k'.Shows p.pid own' d' := by
  obtain ⟨_, rfl, hserves⟩ | ⟨-, rfl⟩ := hk.changeDirectory_cases hp h
  · refine hd.served id hk hp hserves ?_
    rw [hd.old hk hp hlive hserves]
    rfl
  · exact hd.same id rfl hk (.refl _) (.refl _ _)

end

/-- Every exchange is a step of the caller's descriptors. -/
theorem Exchanges.desk_step (h : k.Exchanges pid e k') (hk : k.Sound) (hroom : k.HasRoom pid e)
    (hd : k.Shows pid own d) : ∃ own' d', d.Step anything e d' ∧ k'.Shows pid own' d' := by
  cases h with
  | @call p β request answer _ hp hpid hlive hanswer =>
    subst hpid
    by_cases hfds : (Request.call request).OnDescriptors
    · cases request with
      | openFile path flags permissions => exact desk_openPath hk hp hlive hd hanswer
      | close fd => exact desk_close hk hp hlive hd (Outcome.now_eq_answer.mp hanswer)
      | pipe => exact desk_makePipe hk hp hlive hd (Outcome.now_eq_answer.mp hanswer)
      | duplicate source target =>
        exact desk_duplicate hk hp hlive hd (Outcome.now_eq_answer.mp hanswer) (hroom p hp rfl)
      | duplicateFrom source least =>
        exact desk_duplicateFrom hk hp hlive hd (Outcome.now_eq_answer.mp hanswer)
          (hroom p hp rfl)
      | _ => cases hfds
    · have hstep : d.table.Step anything d.pipes.length (.call request answer) d.table :=
        (Table.step_other (e := .call request answer) hfds).mpr rfl
      by_cases hown : manner request = .own
      · cases request with
        | changeDirectory path =>
          exact desk_changeDirectory hk hp hlive hd (Outcome.now_eq_answer.mp hanswer)
        | openFile | close | pipe | duplicate | duplicateFrom => exact absurd trivial hfds
        | _ => cases hown
      · obtain ⟨-, hextends, hholds⟩ := hk.leaves_perform hp hlive hanswer
        refine hd.same ?_ hstep hk hextends (hholds hown)
        cases request with
        | pipe => exact absurd trivial hfds
        | _ => exact id
  | @fork p child hp hpid hlive =>
    have hforks : k.Exchanges pid (.fork child (.ok (k.spawn p).1)) (k.spawn p).2 :=
      .fork hp hpid hlive
    obtain ⟨-, hextends, hholds⟩ := hforks.leaves hk
    refine ⟨own, _, .of_table rfl, by simpa [Event.newPipes] using hd.pipes, fun id hid => ?_, ?_⟩
    · exact Nat.lt_of_lt_of_le (hd.made id hid) hextends.pipes
    · intro q hq hqpid hqlive
      obtain ⟨p, hp, hpid, hlive, heq, -⟩ := hholds id q hq hqpid hqlive
      rw [hd.table p hp hpid hlive, heq, tableOf_eq hk hp hextends.kinds]

theorem cwd_changeDirectory {path : Path} {answer : Except Errno Unit} {p' : Process}
    (hk : k.Sound) (hp : p ∈ k.processes) (h : k.changeDirectory p path = (answer, k'))
    (hstays : ¬ Event.Moves (.call (.changeDirectory path) answer)) (hp' : p' ∈ k'.processes)
    (hpid : p'.pid = p.pid) : p'.cwd = p.cwd := by
  obtain ⟨_, rfl, -⟩ | ⟨-, rfl⟩ := hk.changeDirectory_cases hp h
  · exact absurd trivial hstays
  · rw [hk.eq_of_pid hp' hp hpid]

/-- Only a `cd` that is carried out takes a process to another directory. -/
theorem cwd_perform {β : Type} {request : Call β} {answer : β} {p' : Process} (hk : k.Sound)
    (hp : p ∈ k.processes) (hlive : p.hasEnded = false)
    (h : k.perform p request = .answer answer k')
    (hstays : ¬ Event.Moves (.call request answer)) (hp' : p' ∈ k'.processes)
    (hpid : p'.pid = p.pid) (hlive' : p'.hasEnded = false) : p'.cwd = p.cwd := by
  by_cases hown : manner request = .own
  · by_cases hmoves : ChangesDirectory request
    · cases request with
      | changeDirectory path =>
        exact cwd_changeDirectory hk hp (Outcome.now_eq_answer.mp h) hstays hp' hpid
      | _ => cases hmoves
    · obtain ⟨files, opening, cwd, hcwd, hserves⟩ := hk.serves_own hp hown
      rw [h] at hserves
      exact (hserves.own hp' hpid hlive').2.2.trans (hcwd hmoves)
  · obtain ⟨q, hq, hqpid, -, -, hcwd⟩ :=
      (hk.leaves_perform hp hlive h).2.2 hown p' hp' hpid hlive'
    rw [hcwd, hk.eq_of_pid hq hp hqpid]

/-- Who stays where it is is told so, unless directories are removed. -/
theorem Stands.same {dir dir' : Path} (hdir : k.Stands pid dir)
    (hdir' : k'.Stands pid dir') (htree : SameTree k k') (hcwd : ∀ p ∈ k.processes, p.pid = pid →
      ∀ p' ∈ k'.processes, p'.pid = pid → p'.hasEnded = false → p'.cwd = p.cwd) : dir' = dir := by
  obtain ⟨p, hp, hpid, hlive, htold⟩ := hdir
  obtain ⟨p', hp', hpid', hlive', htold'⟩ := hdir'
  unfold workingDirectory at htold htold'
  split at htold
  · rename_i path hpath
    rw [hcwd p hp hpid p' hp' hpid' hlive', htree.directoryPath hpath] at htold'
    exact (Except.ok.inj htold').symm.trans (Except.ok.inj htold)
  · cases htold

/-- Every exchange is a step of the caller's directory, but for the removal of directories. -/
theorem Exchanges.directory_step {dir dir' : Path} (h : k.Exchanges pid e k') (hk : k.Sound)
    (hremoves : ¬ e.request.RemovesDirectory) (hdir : k.Stands pid dir)
    (hdir' : k'.Stands pid dir') : DirectoryStep dir e dir' := by
  cases h with
  | @call p β request answer _ hp hpid hlive hanswer =>
    subst hpid
    have hsame (hstays : ¬ Event.Moves (.call request answer)) : dir' = dir := by
      refine hdir.same hdir' (hk.sameTree_perform hp hanswer hremoves) ?_
      intro q hq hqpid p' hp' hpid hlive'
      rw [hk.eq_of_pid hq hp hqpid]
      exact cwd_perform hk hp hlive hanswer hstays hp' hpid hlive'
    cases request with
    | changeDirectory path =>
      rintro ⟨e, rfl⟩
      exact hsame id
    | workingDirectory =>
      cases hanswer
      refine ⟨?_, hsame id⟩
      obtain ⟨q, hq, hqpid, -, htold⟩ := hdir
      rwa [hk.eq_of_pid hq hp hqpid] at htold
    | _ => exact hsame id
  | @fork p child hp hpid hlive =>
    have hforks : k.Exchanges pid (.fork child (.ok (k.spawn p).1)) (k.spawn p).2 :=
      .fork hp hpid hlive
    obtain ⟨-, -, hholds⟩ := hforks.leaves hk
    have htree : SameTree k (k.spawn p).2 := .of_nodes
      (hk.drifts_foldl (fun _ slot _ => drifts_retain slot.file) p.files.values).nodes
    refine hdir.same hdir' htree fun q hq hqpid p' hp' hpid' hlive' => ?_
    obtain ⟨q', hq', hq'pid, -, -, hcwd⟩ := hholds id p' hp' hpid' hlive'
    rw [hcwd, hk.eq_of_pid hq' hq (hq'pid.trans hqpid.symm)]

end

/-- A process lives on in a system where others go on, too, and has the exchanges `t` with it.
While it waits for an answer it may have to ask again. At each exchange `fine` holds. -/
inductive Sees (pid : Pid) (fine : Kernel → Event → Prop) : Kernel → List Event → Kernel → Prop
  | nil {k : Kernel} : k.Lives pid → Sees pid fine k [] k
  | own {k k₁ k' : Kernel} {e : Event} {t : List Event} : k.Exchanges pid e k₁ → fine k e →
      Sees pid fine k₁ t k' → Sees pid fine k (e :: t) k'
  | waits {k k₁ k' : Kernel} {p : Process} {β : Type} {request : Call β} {moved : Bool}
      {t : List Event} : p ∈ k.processes → p.pid = pid → p.hasEnded = false →
      k.perform p request = .block k₁ moved → Sees pid fine k₁ t k' → Sees pid fine k t k'
  | others {k k₁ k' : Kernel} {mover : Option Pid} {t : List Event} : k.Lives pid →
      Moves k mover k₁ → mover ≠ some pid → Sees pid fine k₁ t k' → Sees pid fine k t k'

section

variable {k k' : Kernel} {pid : Pid} {fine : Kernel → Event → Prop} {t : List Event}

theorem Sees.lives (h : Sees pid fine k t k') : k.Lives pid := by
  cases h with
  | nil hlives => exact hlives
  | own hexchange =>
    cases hexchange with
    | call hp hpid hlive => exact ⟨_, hp, hpid, hlive⟩
    | fork hp hpid hlive => exact ⟨_, hp, hpid, hlive⟩
  | waits hp hpid hlive => exact ⟨_, hp, hpid, hlive⟩
  | others hlives => exact hlives

theorem Sound.lives_lt (hk : k.Sound) (h : k.Lives pid) : pid < k.nextPid := by
  obtain ⟨p, hp, rfl, -⟩ := h
  exact (hk.numbered p hp).2

/-- A process that has to wait has lost nothing. -/
theorem Sound.spares_block {p : Process} {β : Type} {request : Call β} {moved : Bool}
    (hk : k.Sound) (hp : p ∈ k.processes) (h : k.perform p request = .block k' moved) :
    Spares pid k k' := by
  have hkernel (hkept : Spares pid k (k.perform p request).kernel) : Spares pid k k' := by
    rwa [h] at hkept
  have hnow {answer : β × Kernel} (h : Outcome.now answer = .block k' moved) : Spares pid k k' := by
    cases h
  cases hmanner : manner request with
  | quiet => exact hkernel ((hk.drifts_quiet hp hmanner).toAges.spares hk)
  | files => exact hkernel ((hk.ages_files hmanner).spares hk)
  | own =>
    cases request with
    | openFile path flags permissions =>
      obtain ⟨_, _, hserves, hfiles⟩ := hk.opens_openPath hp path flags permissions
      rw [show k.openPath p path flags permissions = _ from h] at hserves hfiles
      exact hserves.spares_of_same hk hp hfiles rfl
    | close | pipe | duplicate | duplicateFrom | changeDirectory => exact hnow h
    | _ => cases hmanner
  | leaving =>
    cases request with
    | exec path argv env =>
      exact ((hk.replaces_exec hp path argv env).not_block h).elim
    | execSearch name argv env =>
      exact ((hk.replaces_execSearch hp name argv env).not_block h).elim
    | abort => cases h
    | _ => cases hmanner
  | special =>
    cases request with
    | wait target options =>
      obtain ⟨answer, k₁, hanswer⟩ | heq := wait_kernel (k := k) (p := p) target options
      · cases hanswer.symm.trans h
      · rw [show k.wait p target options = _ from h] at heq
        obtain rfl : k' = k := heq
        exact (Ages.refl _).spares hk
    | setGroup target group => exact hnow h
    | setForeground fd group => exact hkernel (hk.spares_setForeground fd group)
    | _ => cases hmanner

/-- A run is a run of the ledger. -/
theorem Sees.ledger {l : Ledger} (h : Sees pid fine k t k') (hk : k.Sound) (hl : l.Sound)
    (hbooks : k.Books pid l) : ∃ l', Leads Ledger.Step l t l' ∧ k'.Books pid l' := by
  induction h generalizing l with
  | nil => exact ⟨l, .nil, hbooks⟩
  | own hexchange _ hrest ih =>
    obtain ⟨l₁, hstep, hbooks₁⟩ := hexchange.ledger_step hk hrest.lives hl hbooks
    obtain ⟨l', hleads, hbooks'⟩ := ih (hexchange.leaves hk).1 (hl.step hstep) hbooks₁
    exact ⟨l', .cons hstep hleads, hbooks'⟩
  | waits hp _ hlive hblock hrest ih =>
    have hkept : Spares pid _ _ := hk.spares_block hp hblock
    exact ih hkept.sound hl (hkept.toKeeps.books hrest.lives hbooks)
  | others hlives hmoves hne hrest ih =>
    have hkept := hmoves.spares hk (hk.lives_lt hlives) hne
    exact ih hkept.sound hl (hkept.toKeeps.books hrest.lives hbooks)

/-- And, as long as there is room for the copies, one of its descriptors. -/
theorem Sees.desk {own : List PipeId} {d : Desk} (h : Sees pid (HasRoom · pid ·) k t k')
    (hk : k.Sound) (hd : k.Shows pid own d) :
    ∃ own' d', Leads (Desk.Step anything) d t d' ∧ k'.Shows pid own' d' := by
  induction h generalizing own d with
  | nil => exact ⟨own, d, .nil, hd⟩
  | own hexchange hroom _ ih =>
    obtain ⟨own₁, d₁, hstep, hd₁⟩ := hexchange.desk_step hk hroom hd
    obtain ⟨own', d', hleads, hd'⟩ := ih (hexchange.leaves hk).1 hd₁
    exact ⟨own', d', .cons hstep hleads, hd'⟩
  | waits hp _ hlive hblock _ ih =>
    have hkept : Spares pid _ _ := hk.spares_block hp hblock
    exact ih hkept.sound (hd.spared hk hkept)
  | others hlives hmoves hne _ ih =>
    have hkept := hmoves.spares hk (hk.lives_lt hlives) hne
    exact ih hkept.sound (hd.spared hk hkept)

end

end Kernel

end JobShell
