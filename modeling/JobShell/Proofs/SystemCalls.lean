import JobShell.Proofs.JobIds
import JobShell.Proofs.ProcessTable

/-!
What a system call does to the processes. A call may change the descriptors and the directory of
the process that makes it, and signals may follow from it; else all processes only age.
-/
namespace JobShell

/-- Which numbers are free does not depend on what the others are for. -/
theorem Numbered.firstFree_put {α : Type} (t : Numbered α) (n : Nat) (a b : α) (lowest : Nat) :
    (t.put n a).firstFree lowest = (t.put n b).firstFree lowest := by
  have hnumbers (entries : List (Nat × α)) :
      (putEntry n a entries).map Prod.fst = (putEntry n b entries).map Prod.fst := by
    induction entries with
    | nil => rfl
    | cons entry entries ih =>
      unfold putEntry
      split
      · rfl
      · split
        · rfl
        · rw [List.map_cons, List.map_cons, ih]
  exact congrArg (firstGap lowest) (hnumbers t.entries)

namespace Kernel

/-- The system after a call, however it comes out. -/
def Outcome.kernel {β : Type} : Outcome β → Kernel
  | answer _ k | block k _ | gone k | become _ _ _ k => k

theorem Outcome.now_eq_answer {β : Type} {answer : β × Kernel} {value : β} {k : Kernel} :
    Outcome.now answer = .answer value k ↔ answer = (value, k) := by
  obtain ⟨value', k'⟩ := answer
  simp [Outcome.now]

/-- What a call may change of the processes. -/
inductive Manner where
  /-- Nothing that anybody sees. -/
  | quiet
  /-- Neither, but files and names. -/
  | files
  /-- Descriptors of the caller, or its directory. -/
  | own
  /-- The caller may not return from it. -/
  | leaving
  /-- It takes a process off the list, moves one into a group, or moves the terminal. -/
  | special
  deriving DecidableEq

def manner {β : Type} : Call β → Manner
  | .openFile _ _ _ | .close _ | .pipe | .duplicate _ _ | .duplicateFrom _ _
  | .changeDirectory _ => .own
  | .write _ _ | .makeDirectory _ _ | .removeDirectory _ | .unlink _
  | .changePermissions _ _ => .files
  | .exec _ _ _ | .execSearch _ _ _ | .abort => .leaving
  | .wait _ _ | .setGroup _ _ | .setForeground _ _ => .special
  | _ => .quiet

/-- In a call of its own `p` becomes `p₁`, and everything else ages. -/
structure Serves (p p₁ : Process) (k k' : Kernel) : Prop where
  pid : p₁.pid = p.pid
  parent : p₁.parent = p.parent
  group : p₁.group = p.group
  life : p₁.life = p.life
  ordered : p.files.Ordered → p₁.files.Ordered
  between : ∃ k₁, Grows k k₁ ∧ (∀ id ∈ p₁.openIds, id < k₁.openFiles.size) ∧
    Ages (k₁.setProcess p₁) k'

/-- How opening comes out. A new descriptor is the first that was free. -/
def Opens (p : Process) (k : Kernel) (outcome : Outcome (Except Errno Fd)) : Prop :=
  ∃ files opening, Serves p { p with files, opening } k outcome.kernel ∧ match outcome with
    | .answer (.ok fd) _ => fd = p.files.firstFree 0 ∧ ∃ slot, files = p.files.put fd slot
    | _ => files = p.files

section

variable {k k' k'' : Kernel} {p p₁ : Process}

theorem Grows.opened (h : Grows k k') {id : OpenId} (hid : id < k.openFiles.size) :
    id < k'.openFiles.size := by
  obtain ⟨file', hfile', -⟩ := h.kinds id k.openFiles[id] (Array.getElem?_eq_getElem hid)
  exact (Array.getElem?_eq_some_iff.mp hfile').1

theorem Sound.setProcess_self (hk : k.Sound) (hp : p ∈ k.processes) : k.setProcess p = k := by
  have hsame : (k.processes.map fun q => if q.pid == p.pid then p else q) = k.processes := by
    refine (List.map_congr_left fun q hq => ?_).trans (List.map_id k.processes)
    split
    · rename_i hpid
      exact (hk.eq_of_pid hq hp (by simpa using hpid)).symm
    · rfl
  unfold setProcess
  rw [hsame]

theorem Serves.then (h : Serves p p₁ k k') (h' : Ages k' k'') : Serves p p₁ k k'' := by
  obtain ⟨k₁, hgrows, hopened, hafter⟩ := h.between
  exact { h with between := ⟨k₁, hgrows, hopened, hafter.trans h'⟩ }

theorem Grows.serves (h : Grows k k') (h' : Serves p p₁ k' k'') : Serves p p₁ k k'' := by
  obtain ⟨k₁, hgrows, hopened, hafter⟩ := h'.between
  exact { h' with between := ⟨k₁, h.trans hgrows, hopened, hafter⟩ }

theorem Ages.serves (h : Ages k k') (hk : k.Sound) (hp : p ∈ k.processes) :
    Serves p p k k' := by
  refine ⟨rfl, rfl, rfl, rfl, id, k, .refl k, hk.opened p hp, ?_⟩
  rwa [hk.setProcess_self hp]

theorem mem_openIds {id : OpenId} : id ∈ p.openIds ↔
    (∃ entry ∈ p.files.entries, entry.2.file = id) ∨
      ∃ opening, p.opening = some opening ∧ opening.file = id := by
  simp [Process.openIds, Numbered.values]

/-- Other descriptors, and another fifo to wait for, if any. -/
theorem Sound.serves_setProcess (hk : k.Sound) (hp : p ∈ k.processes) (hgrows : Grows k k')
    {files : Numbered Slot} {opening : Option Opening} (hordered : p.files.Ordered → files.Ordered)
    (hfiles : ∀ entry ∈ files.entries,
      entry ∈ p.files.entries ∨ entry.2.file < k'.openFiles.size)
    (hopening : ∀ o, opening = some o → o.file < k'.openFiles.size) :
    Serves p { p with files, opening } k (k'.setProcess { p with files, opening }) := by
  refine ⟨rfl, rfl, rfl, rfl, hordered, k', hgrows, fun id hid => ?_, .refl _⟩
  obtain ⟨entry, hentry, rfl⟩ | ⟨o, ho, rfl⟩ := mem_openIds.mp hid
  · obtain hold | hnew := hfiles entry hentry
    · exact hgrows.opened (hk.opened p hp _ (mem_openIds.mpr (.inl ⟨entry, hold, rfl⟩)))
    · exact hnew
  · exact hopening o ho

theorem Sound.serves_install (hk : k.Sound) (hp : p ∈ k.processes) (hgrows : Grows k k')
    {opening : Option Opening} (hopening : ∀ o, opening = some o → o.file < k'.openFiles.size)
    {fd : Fd} {slot : Slot} (hslot : slot.file < k'.openFiles.size) :
    Serves p { p with files := p.files.put fd slot, opening } k
      (k'.install { p with opening } fd slot) := by
  refine hk.serves_setProcess hp hgrows (fun h => h.put fd slot) (fun entry hentry => ?_) hopening
  obtain rfl | hold := Numbered.mem_putEntry hentry
  · exact .inr hslot
  · exact .inl hold

theorem Sound.opening_lt (hk : k.Sound) (hp : p ∈ k.processes) (hgrows : Grows k k')
    (o : Opening) (ho : p.opening = some o) : o.file < k'.openFiles.size :=
  hgrows.opened (hk.opened p hp _ (mem_openIds.mpr (.inr ⟨o, ho, rfl⟩)))

theorem grows_addOpenFile {file : OpenFile}
    (hfile : ∀ id, file.subject = .pipe id → id < k.pipes.size) :
    Grows k (k.addOpenFile file).2 where
  processes := rfl
  foreground := rfl
  nextPid := rfl
  pipes := Nat.le_refl _
  kinds id file hfile := by
    refine ⟨file, ?_, rfl⟩
    obtain ⟨hlt, hget⟩ := Array.getElem?_eq_some_iff.mp hfile
    exact (Array.getElem?_push_lt hlt).trans (congrArg some hget)
  piped hk other hother id hid := by
    obtain hother | rfl := Array.mem_push.mp hother
    · exact hk other hother id hid
    · exact hfile id hid

theorem grows_openPipe {pipe : PipeId} (hpipe : pipe < k.pipes.size) (access : Access) :
    Grows k (k.addOpenFile { subject := .pipe pipe, access }).2 :=
  grows_addOpenFile fun id hid => by
    cases hid
    exact hpipe

theorem addOpenFile_lt (file : OpenFile) :
    (k.addOpenFile file).1 < (k.addOpenFile file).2.openFiles.size := by
  simp [addOpenFile]

theorem openFile?_addOpenFile (k : Kernel) (file : OpenFile) :
    (k.addOpenFile file).2.openFile? (k.addOpenFile file).1 = some file := by
  simp [openFile?, addOpenFile]

theorem openFile?_lt {id : OpenId} {kind : Subject × Access}
    (h : (k.openFile? id).map OpenFile.kind = some kind) : id < k.openFiles.size := by
  obtain ⟨file, hfile, -⟩ := Option.map_eq_some_iff.mp h
  exact (Array.getElem?_eq_some_iff.mp hfile).1

theorem freeFd?_eq_some {least fd : Fd} (h : freeFd? p least = some fd) :
    fd = p.files.firstFree least := by
  unfold freeFd? at h
  dsimp only at h
  split at h
  · exact (Option.some.inj h).symm
  · cases h

theorem Sound.opens_grant (hk : k.Sound) (hp : p ∈ k.processes) {file : OpenFile}
    (hfile : ∀ id, file.subject = .pipe id → id < k.pipes.size) (flags : OpenFlags) :
    Opens p k (k.grant p file flags) := by
  unfold grant
  split
  · exact ⟨_, _, (Ages.refl k).serves hk hp, rfl⟩
  · rename_i fd hfree
    have hgrows := grows_addOpenFile hfile
    exact ⟨_, _, hk.serves_install hp hgrows (hk.opening_lt hp hgrows) (addOpenFile_lt file),
      freeFd?_eq_some hfree, _, rfl⟩

theorem Opens.of_grows {outcome : Outcome (Except Errno Fd)} (h : Grows k k')
    (h' : Opens p k' outcome) : Opens p k outcome := by
  obtain ⟨files, opening, hserves, hrest⟩ := h'
  exact ⟨files, opening, h.serves hserves, hrest⟩

theorem Sound.opens_error (hk : k.Sound) (hp : p ∈ k.processes) (e : Errno) :
    Opens p k (.answer (.error e) k) :=
  ⟨_, _, (Ages.refl k).serves hk hp, rfl⟩

theorem pipe?_lt {id : PipeId} {pipe : Pipe} (h : k.pipe? id = some pipe) : id < k.pipes.size :=
  (Array.getElem?_eq_some_iff.mp h).1

theorem Sound.opens_openFifo (hk : k.Sound) (hp : p ∈ k.processes) (pipe : PipeId)
    (flags : OpenFlags) : Opens p k (k.openFifo p pipe flags) := by
  unfold openFifo
  split
  · exact hk.opens_error hp _
  · exact hk.opens_error hp _
  · rename_i before fd hbefore hfree
    have hfd := freeFd?_eq_some hfree
    split
    · rename_i opening hopening
      extract_lets ready
      split
      · exact ⟨_, _, hk.serves_install hp (.refl k) (by simp)
          (hk.opening_lt hp (.refl k) opening hopening), hfd, _, rfl⟩
      · exact ⟨_, _, (Ages.refl k).serves hk hp, rfl⟩
    · rename_i hopening
      extract_lets reads writes k₁ seen ready
      have hpipe : Grows k k₁ := grows_updatePipe pipe _
      have hgrows := hpipe.trans
        (grows_openPipe (Nat.lt_of_lt_of_le (pipe?_lt hbefore) hpipe.pipes) flags.access)
      have hlt := addOpenFile_lt (k := k₁) { subject := .pipe pipe, access := flags.access }
      generalize k₁.addOpenFile _ = made at hgrows hlt ⊢
      obtain ⟨made, k₂⟩ := made
      dsimp only at hgrows hlt ⊢
      split
      · exact ⟨_, _, hk.serves_install hp hgrows (hk.opening_lt hp hgrows) hlt, hfd, _, rfl⟩
      · refine ⟨_, _, hk.serves_setProcess hp hgrows id (fun _ => .inl) ?_, rfl⟩
        intro o ho
        cases ho
        exact hlt

theorem grows_setNode (id : NodeId) (node : Node) : Grows k (k.setNode id node) :=
  .of_openFiles rfl rfl rfl (Nat.le_refl _) rfl

theorem Sound.opens_openPlace (hk : k.Sound) (hp : p ∈ k.processes) (place : Place)
    (flags : OpenFlags) : Opens p k (k.openPlace p place flags) := by
  unfold openPlace
  split
  · split
    · exact hk.opens_error hp _
    · exact hk.opens_grant hp (by simp) flags
  · split
    · exact hk.opens_grant hp (by simp) flags
    · exact hk.opens_openFifo hp _ flags
    · exact hk.opens_error hp _
    · exact hk.opens_error hp _
    · rename_i id hnot
      extract_lets file
      split
      · exact hk.opens_openFifo hp _ flags
      · split
        · exact hk.opens_grant hp (by simp) flags
        · exact hk.opens_error hp _
      · exact hk.opens_grant hp (by simp) flags
      · split
        · exact hk.opens_error hp _
        · extract_lets data k₁
          have hgrows : Grows k k₁ := by
            unfold k₁
            split
            · exact grows_setNode _ _
            · exact .refl k
          exact .of_grows hgrows
            ((hk.ages hgrows.ages).opens_grant (hgrows.processes ▸ hp) (by simp [file]) flags)
      · split
        · exact hk.opens_grant hp (by simp) flags
        · exact hk.opens_error hp _
      · exact hk.opens_error hp _

theorem grows_link (parent : NodeId) (name : String) (node : Node) :
    Grows k (k.link parent name node).2 := by
  unfold link
  dsimp only
  split <;> exact .of_openFiles rfl rfl rfl (Nat.le_refl _) rfl

theorem Sound.opens_openPath (hk : k.Sound) (hp : p ∈ k.processes) (path : String)
    (flags : OpenFlags) (permissions : Nat) :
    Opens p k (k.openPath p path flags permissions) := by
  unfold openPath
  split
  · exact hk.opens_error hp _
  · exact hk.opens_openPlace hp _ flags
  · rename_i parent name hresolved
    split
    · exact hk.opens_error hp _
    · split
      · exact hk.opens_error hp _
      · split
        · exact hk.opens_error hp _
        · split
          · exact hk.opens_error hp _
          · extract_lets mode
            have hgrows : Grows k (k.link parent name
              { content := .file .empty, permissions := mode }).2 := grows_link parent name _
            generalize k.link parent name _ = linked at hgrows ⊢
            exact .of_grows hgrows
              ((hk.ages hgrows.ages).opens_openPlace (hgrows.processes ▸ hp) _ flags)

theorem Sound.close_cases (hk : k.Sound) (hp : p ∈ k.processes) {fd : Fd}
    {answer : Except Errno Unit} (h : k.close p fd = (answer, k')) :
    Serves p { p with files := p.files.erase fd } k k' ∨ p.files.get? fd = none ∧ k' = k := by
  unfold close at h
  split at h
  · rename_i hclosed
    cases h
    exact .inr ⟨hclosed, rfl⟩
  · rename_i slot hslot
    cases h
    have herase : Serves p { p with files := p.files.erase fd } k
        (k.setProcess { p with files := p.files.erase fd }) :=
      hk.serves_setProcess hp (.refl k) (fun h => h.erase fd)
        (fun _ h => .inl (List.mem_filter.mp h).1) (hk.opening_lt hp (.refl k))
    exact .inl (herase.then (grows_release slot.file).ages)

theorem grows_addPipe (pipe : Pipe) : Grows k (k.addPipe pipe).2 :=
  .of_openFiles rfl rfl rfl (by simp [addPipe]) rfl

theorem addPipeEnds_spec (k : Kernel) :
    Grows k k.addPipeEnds.2.2 ∧
      (k.addPipeEnds.2.2.openFile? k.addPipeEnds.1).map OpenFile.kind =
        some (.pipe k.pipes.size, .read) ∧
      (k.addPipeEnds.2.2.openFile? k.addPipeEnds.2.1).map OpenFile.kind =
        some (.pipe k.pipes.size, .write) ∧
      k.addPipeEnds.2.2.pipes.size = k.pipes.size + 1 := by
  have hpiped := grows_addPipe (k := k) { readers := 1, writers := 1 }
  have hsize : (k.addPipe { readers := 1, writers := 1 }).2.pipes.size = k.pipes.size + 1 := by
    simp [addPipe]
  have hlt := Nat.lt_of_lt_of_eq k.pipes.size.lt_succ_self hsize.symm
  have hread := grows_openPipe hlt .read
  have hwrite := grows_openPipe (Nat.lt_of_lt_of_le hlt hread.pipes) .write
  obtain ⟨_, hget, hkind⟩ := hwrite.kinds _ _ (openFile?_addOpenFile _ _)
  exact ⟨(hpiped.trans hread).trans hwrite, Option.map_eq_some_iff.mpr ⟨_, hget, hkind⟩,
    Option.map_eq_some_iff.mpr ⟨_, openFile?_addOpenFile _ _, rfl⟩, hsize⟩

/-- The ends of a new pipe get the two lowest free descriptors. -/
theorem Sound.makePipe_cases (hk : k.Sound) (hp : p ∈ k.processes)
    {answer : Except Errno (Fd × Fd)} (h : k.makePipe p = (answer, k')) :
    (∃ reading writing readEnd writeEnd, answer = .ok (reading, writing) ∧
        reading = p.files.firstFree 0 ∧
        writing = (p.files.put reading { file := readEnd }).firstFree 0 ∧
        (k'.openFile? readEnd).map OpenFile.kind = some (.pipe k.pipes.size, .read) ∧
        (k'.openFile? writeEnd).map OpenFile.kind = some (.pipe k.pipes.size, .write) ∧
        k'.pipes.size = k.pipes.size + 1 ∧
        Serves p { p with files :=
          (p.files.put reading { file := readEnd }).put writing { file := writeEnd } } k k') ∨
      (∃ e, answer = .error e) ∧ k' = k := by
  unfold makePipe at h
  split at h
  · cases h
    exact .inr ⟨⟨_, rfl⟩, rfl⟩
  · rename_i reading hreading
    extract_lets next at h
    split at h
    · cases h
      exact .inr ⟨⟨_, rfl⟩, rfl⟩
    · rename_i writing hwriting
      have hwriting : writing = next.firstFree 0 := freeFd?_eq_some hwriting
      obtain ⟨hgrows, hread, hwrite, hsize⟩ := addPipeEnds_spec k
      generalize k.addPipeEnds = ends at h hgrows hread hwrite hsize
      obtain ⟨readEnd, writeEnd, k₁⟩ := ends
      cases h
      refine .inl ⟨reading, writing, readEnd, writeEnd, rfl, freeFd?_eq_some hreading,
        hwriting.trans (Numbered.firstFree_put ..), hread, hwrite, hsize, ?_⟩
      refine hk.serves_setProcess hp hgrows (fun h => (h.put _ _).put _ _) ?_
        (hk.opening_lt hp hgrows)
      intro entry hentry
      obtain rfl | hentry := Numbered.mem_putEntry hentry
      · exact .inr (openFile?_lt hwrite)
      · obtain rfl | hold := Numbered.mem_putEntry hentry
        · exact .inr (openFile?_lt hread)
        · exact .inl hold

theorem Sound.serves_copy (hk : k.Sound) (hp : p ∈ k.processes) {source : Fd} {slot : Slot}
    (hslot : p.files.get? source = some slot) (target : Fd) (closeOnExec : Bool) :
    Serves p { p with files := p.files.put target { file := slot.file, closeOnExec } } k
      (k.install p target { file := slot.file, closeOnExec }) := by
  refine hk.serves_install hp (.refl k) (hk.opening_lt hp (.refl k)) (hk.opened p hp _ ?_)
  exact mem_openIds.mpr
    (.inl ⟨(source, slot), (Numbered.get?_eq_some_iff (hk.ordered p hp)).mp hslot, rfl⟩)

/-- A copy of a descriptor in the place of another. -/
theorem Sound.duplicate_cases (hk : k.Sound) (hp : p ∈ k.processes) {source target : Fd}
    {answer : Except Errno Unit} (h : k.duplicate p source target = (answer, k')) :
    (∃ slot, answer = .ok () ∧ p.files.get? source = some slot ∧
        (source = target ∧ k' = k ∨
          Serves p { p with files := p.files.put target { file := slot.file } } k k')) ∨
      (∃ e, answer = .error e) ∧ k' = k ∧
        (p.files.get? source = none ∨ p.fileLimit ≤ target) := by
  unfold duplicate at h
  split at h
  · rename_i hclosed
    cases h
    exact .inr ⟨⟨_, rfl⟩, rfl, .inl hclosed⟩
  · rename_i slot hslot
    split at h
    · rename_i hsame
      cases h
      exact .inl ⟨slot, rfl, hslot, .inl ⟨hsame, rfl⟩⟩
    · split at h
      · rename_i hlimit
        cases h
        exact .inr ⟨⟨_, rfl⟩, rfl, .inr hlimit⟩
      · have hcopy := (hk.serves_copy hp hslot target false).then (grows_retain slot.file).ages
        dsimp only at h
        split at h
        · rename_i old hold
          cases h
          exact .inl ⟨slot, rfl, hslot, .inr (hcopy.then (grows_release old.file).ages)⟩
        · cases h
          exact .inl ⟨slot, rfl, hslot, .inr hcopy⟩

/-- A copy of a descriptor on the lowest that is free from `lowest` on. -/
theorem Sound.duplicateFrom_cases (hk : k.Sound) (hp : p ∈ k.processes) {source lowest : Fd}
    {answer : Except Errno Fd} (h : k.duplicateFrom p source lowest = (answer, k')) :
    (∃ slot fd, answer = .ok fd ∧ p.files.get? source = some slot ∧
        fd = p.files.firstFree lowest ∧
        Serves p { p with files := p.files.put fd { file := slot.file, closeOnExec := true } }
          k k') ∨
      (∃ e, answer = .error e) ∧ k' = k ∧
        (p.files.get? source = none ∨ p.fileLimit ≤ p.files.firstFree lowest) := by
  unfold duplicateFrom at h
  split at h
  · rename_i hclosed
    cases h
    exact .inr ⟨⟨_, rfl⟩, rfl, .inl hclosed⟩
  · rename_i slot hslot
    split at h
    · rename_i hlimit
      cases h
      exact .inr ⟨⟨_, rfl⟩, rfl, .inr (Nat.le_trans hlimit (Numbered.le_firstGap _ _))⟩
    · split at h
      · rename_i hnone
        cases h
        refine .inr ⟨⟨_, rfl⟩, rfl, .inr ?_⟩
        simpa [freeFd?] using hnone
      · rename_i fd hfree
        cases h
        exact .inl ⟨slot, fd, rfl, hslot, freeFd?_eq_some hfree,
          (hk.serves_copy hp hslot fd true).then (grows_retain slot.file).ages⟩

theorem Sound.changeDirectory_cases (hk : k.Sound) (hp : p ∈ k.processes) {path : Path}
    {answer : Except Errno Unit} (h : k.changeDirectory p path = (answer, k')) :
    (∃ place, answer = .ok () ∧ Serves p { p with cwd := place } k k') ∨
      (∃ e, answer = .error e) ∧ k' = k := by
  unfold changeDirectory at h
  split at h
  · cases h
    exact .inr ⟨⟨_, rfl⟩, rfl⟩
  · cases h
    exact .inr ⟨⟨_, rfl⟩, rfl⟩
  · cases h
    exact .inr ⟨⟨_, rfl⟩, rfl⟩
  · split at h
    · rename_i place hfound hdirectory
      cases h
      exact .inl ⟨place, rfl, rfl, rfl, rfl, rfl, id, k, .refl k, hk.opened p hp, .refl _⟩
    · cases h
      exact .inr ⟨⟨_, rfl⟩, rfl⟩

/-- The process that a number stands for where one is to be put into a group. -/
def Process.meant (p : Process) (target : Pid) : Pid := if target = 0 then p.pid else target

/-- The group that is asked for. -/
def Process.goal (p : Process) (target group : Pid) : Pid :=
  if group = 0 then p.meant target else group

/-- A process may put itself into a group, and a child that has not become another program: one of
its own, or one that somebody is in. -/
structure MayJoin (k : Kernel) (p q : Process) (goal : Pid) : Prop where
  own : q.pid = p.pid ∨ q.parent = p.pid ∧ q.replaced = false
  nonneg : 0 ≤ goal
  there : goal = q.pid ∨ ∃ r ∈ k.processes, r.group = goal

/-- Putting a process into a group changes nothing but that. -/
theorem Sound.setGroup_cases (hk : k.Sound) {target group : Pid} {answer : Except Errno Unit}
    (h : k.setGroup p target group = (answer, k')) :
    (∃ q ∈ k.processes, q.pid = p.meant target ∧ k.MayJoin p q (p.goal target group) ∧
        answer = .ok () ∧ k' = k.setProcess { q with group := p.goal target group }) ∨
      (∃ e, answer = .error e) ∧ k' = k ∧ ∀ q ∈ k.processes, q.pid = p.meant target →
        ¬ k.MayJoin p q (p.goal target group) := by
  unfold setGroup at h
  extract_lets meant goal at h
  have hmeant : p.meant target = meant := rfl
  have hgoal : p.goal target group = goal := rfl
  rw [hmeant, hgoal]
  clear_value meant goal
  split at h
  · rename_i hneg
    cases h
    exact .inr ⟨⟨_, rfl⟩, rfl, fun q _ _ hjoin => Int.not_lt.mpr hjoin.nonneg hneg⟩
  · rename_i hnonneg
    split at h
    · rename_i hnone
      cases h
      refine .inr ⟨⟨_, rfl⟩, rfl, fun q hq hpid _ => ?_⟩
      rw [hk.process?_eq_some_iff.mpr ⟨hq, hpid⟩] at hnone
      cases hnone
    · rename_i q hfound
      obtain ⟨hq, hpid⟩ := hk.process?_eq_some_iff.mp hfound
      have hrefused (hno : ¬ k.MayJoin p q goal) : ∀ r ∈ k.processes,
          r.pid = meant → ¬ k.MayJoin p r goal := by
        intro r hr hrpid
        rwa [hk.eq_of_pid hr hq (hrpid.trans hpid.symm)]
      split at h
      · rename_i hstranger
        cases h
        exact .inr ⟨⟨_, rfl⟩, rfl, hrefused fun hjoin =>
          hjoin.own.elim hstranger.1 fun hchild => hstranger.2 hchild.1⟩
      · rename_i hown
        split at h
        · rename_i hreplaced
          cases h
          exact .inr ⟨⟨_, rfl⟩, rfl, hrefused fun hjoin =>
            hjoin.own.elim hreplaced.1 fun hchild => by simp [hreplaced.2] at hchild⟩
        · rename_i hfresh
          split at h
          · rename_i hexists
            cases h
            refine .inl ⟨q, hq, hpid, ⟨?_, Int.not_lt.mp hnonneg, ?_⟩, rfl, rfl⟩
            · by_cases hself : q.pid = p.pid
              · exact .inl hself
              · exact .inr ⟨not_not.mp fun hne => hown ⟨hself, hne⟩,
                  Bool.eq_false_iff.mpr fun hr => hfresh ⟨hself, hr⟩⟩
            · simpa using hexists
          · rename_i hmissing
            cases h
            exact .inr ⟨⟨_, rfl⟩, rfl, hrefused fun hjoin => hmissing (by simpa using hjoin.there)⟩

/-- Changes of what no other process can see. -/
theorem Sound.drifts_with (hk : k.Sound) (hp : p ∈ k.processes) {p' : Process}
    (h : (p'.pid, p'.parent, p'.group, p'.cwd, p'.replaced, p'.life, p'.files, p'.opening) =
      (p.pid, p.parent, p.group, p.cwd, p.replaced, p.life, p.files, p.opening)) :
    Drifts k (k.setProcess p') :=
  hk.drifts_setProcess hp (.of_eq h)

theorem Ages.of_openFiles (hprocesses : k'.processes = k.processes)
    (hforeground : k'.tty.foreground = k.tty.foreground) (hnext : k'.nextPid = k.nextPid)
    (hpipes : k.pipes.size ≤ k'.pipes.size) (hfiles : k'.openFiles = k.openFiles) : Ages k k' :=
  (Grows.of_openFiles hprocesses hforeground hnext hpipes hfiles).ages

theorem drifts_updatePipe (id : PipeId) (f : Pipe → Pipe) : Drifts k (k.updatePipe id f) :=
  ⟨(grows_updatePipe id f).ages, rfl⟩

theorem drifts_updateOpenFile (id : OpenId) {f : OpenFile → OpenFile}
    (hf : ∀ file, (f file).kind = file.kind) : Drifts k (k.updateOpenFile id f) :=
  ⟨(grows_updateOpenFile id hf).ages, rfl⟩

theorem Ages.of_eq (h : k' = k) : Ages k k' := h ▸ .refl k

theorem drifts_takeFromPipe (id : PipeId) (count : Nat) :
    Drifts k (k.takeFromPipe id count).kernel := by
  unfold takeFromPipe
  split
  · exact .refl k
  · split
    · exact drifts_updatePipe id _
    · split <;> exact .refl k

theorem Sound.drifts_takeTyped (hk : k.Sound) (count : Nat) :
    Drifts k (k.takeTyped p count).kernel := by
  unfold takeTyped
  split
  · split
    · exact .refl k
    · exact hk.drifts_signalGroup _ _
  · split
    · exact .refl k
    · exact ⟨.of_openFiles rfl rfl rfl (Nat.le_refl _) rfl, rfl⟩

theorem Sound.drifts_read (hk : k.Sound) (fd : Fd) (count : Nat) :
    Drifts k (k.read p fd count).kernel := by
  unfold read
  split
  · exact .refl k
  · rename_i id file hfile
    split
    · exact .refl k
    · extract_lets piece
      have hpiece (data : ByteArray) : Drifts k (piece data).kernel :=
        drifts_updateOpenFile id fun _ => rfl
      split
      · exact .refl k
      · exact drifts_takeFromPipe _ count
      · exact hpiece _
      · exact .refl k
      · exact .refl k
      · exact .refl k
      · exact hk.drifts_takeTyped count
      · split
        · exact hpiece _
        · exact .refl k

theorem Sound.drifts_putIntoPipe (hk : k.Sound) (id : PipeId) (data : ByteArray) :
    Drifts k (k.putIntoPipe p id data).kernel := by
  unfold putIntoPipe
  split
  · exact .refl k
  · split
    · exact hk.drifts_signalProcess _ _
    · extract_lets room
      split
      · exact .refl k
      · split
        · exact .refl k
        · exact drifts_updatePipe id _

theorem Sound.ages_write (hk : k.Sound) (fd : Fd) (data : ByteArray) :
    Ages k (k.write p fd data).kernel := by
  unfold write
  split
  · exact .refl k
  · rename_i id file hfile
    split
    · exact .refl k
    · split
      · exact .refl k
      · exact .refl k
      · exact (hk.drifts_putIntoPipe _ data).toAges
      · exact .refl k
      · exact .refl k
      · split
        · extract_lets offset k₁
          have hset : Ages k k₁ := (grows_setNode _ _).ages
          exact hset.trans (Drifts.toAges (drifts_updateOpenFile id fun _ => rfl))
        · exact .refl k

theorem drifts_moveBack (fd : Fd) (count : Nat) : Drifts k (k.moveBack p fd count).2 := by
  unfold moveBack
  split
  · exact .refl k
  · rename_i id file hfile
    split
    · exact drifts_updateOpenFile id fun _ => rfl
    · exact .refl k

theorem ages_makeDirectory (path : String) (permissions : Nat) :
    Ages k (k.makeDirectory p path permissions).2 := by
  unfold makeDirectory
  split
  · exact .refl k
  · exact .refl k
  · split
    · exact .of_openFiles rfl rfl rfl (Nat.le_refl _) rfl
    · exact .refl k

theorem ages_removeDirectory (path : String) : Ages k (k.removeDirectory p path).2 := by
  have hremoved (id : NodeId) (node : Node) : Ages k ((k.setNode id node).unlinkNode id) :=
    .of_openFiles rfl rfl rfl (Nat.le_refl _) rfl
  unfold removeDirectory
  split
  · exact .refl k
  · exact .refl k
  · split
    · split
      · exact .refl k
      · split
        · exact .refl k
        · split
          · exact .refl k
          · exact hremoved _ _
    · exact .refl k
  · exact .refl k

theorem ages_unlink (path : String) : Ages k (k.unlink p path).2 := by
  have hremoved (id : NodeId) : Ages k (k.unlinkNode id) :=
    .of_openFiles rfl rfl rfl (Nat.le_refl _) rfl
  unfold unlink
  split
  · exact .refl k
  · exact .refl k
  · split
    · exact .refl k
    · split
      · exact hremoved _
      · exact .refl k

theorem ages_changePermissions (fd : Fd) (permissions : Nat) :
    Ages k (k.changePermissions p fd permissions).2 := by
  unfold changePermissions
  split
  · exact .refl k
  · split
    · exact (grows_setNode _ _).ages
    · exact .refl k

theorem Sound.drifts_setDisposition (hk : k.Sound) (hp : p ∈ k.processes) (signal : Signal)
    (disposition : Disposition) : Drifts k (k.setDisposition p signal disposition).2 := by
  unfold setDisposition
  split
  · exact .refl k
  · cases disposition <;> exact hk.drifts_with hp rfl

theorem Sound.drifts_record (hk : k.Sound) (hp : p ∈ k.processes) (signal : Signal) :
    Drifts k (k.record p signal).2 := by
  unfold record
  split
  · exact .refl k
  · exact hk.drifts_with hp rfl

theorem Sound.drifts_sleep (hk : k.Sound) (hp : p ∈ k.processes) (milliseconds : Nat) :
    Drifts k (k.sleep p milliseconds).kernel := by
  unfold sleep
  split
  · split
    · exact hk.drifts_with hp rfl
    · exact .refl k
  · exact hk.drifts_with hp rfl

theorem Sound.drifts_setModes (hk : k.Sound) (fd : Fd) :
    Drifts k (k.setModes p fd).kernel := by
  unfold setModes
  split
  · exact .refl k
  · split
    · exact .refl k
    · split
      · exact hk.drifts_signalGroup _ _
      · exact .refl k

/-- Becoming another program fails and leaves all as it is, or it is noted and closes
descriptors. -/
def Replaces (p : Process) (k : Kernel) (outcome : Outcome Errno) : Prop :=
  (∃ e, outcome = .answer e k) ∨ ∃ p₁ name argv env k', outcome = .become name argv env k' ∧
    p₁.replaced = true ∧ Serves p p₁ k k'

theorem Sound.replaces_exec (hk : k.Sound) (hp : p ∈ k.processes) (path : String)
    (argv : List String) (env : Environment) : Replaces p k (k.exec p path argv env) := by
  unfold exec
  split
  · exact .inl ⟨_, rfl⟩
  · split
    · exact .inl ⟨_, rfl⟩
    · extract_lets closing kept k₁
      have hkept : kept.entries.Sublist p.files.entries := List.filter_sublist
      have hp₁ : Serves p { p with
          files := kept, recorded := [], arrived := [], relay := none, name := shownName path
          replaced := true } k k₁ := by
        refine ⟨rfl, rfl, rfl, rfl, fun h => h.sublist (hkept.map _), k, .refl k,
          fun id hid => hk.opened p hp id ?_, .refl _⟩
        rw [mem_openIds] at hid ⊢
        exact hid.imp_left fun ⟨entry, hentry, heq⟩ => ⟨entry, hkept.subset hentry, heq⟩
      exact .inr ⟨_, _, _, _, _, rfl, rfl, hp₁.then
        (grows_foldl (fun _ id => grows_release id) closing k₁).ages⟩

theorem Sound.replaces_execFile (hk : k.Sound) (hp : p ∈ k.processes) (path : String)
    (argv : List String) (env : Environment) : Replaces p k (k.execFile p path argv env) := by
  unfold execFile
  obtain ⟨e, heq⟩ | ⟨p₁, name, args, env', k', heq, hrest⟩ :=
    hk.replaces_exec hp path argv env
  · rw [heq]
    dsimp only
    split
    · exact hk.replaces_exec hp _ _ env
    · exact .inl ⟨e, rfl⟩
  · rw [heq]
    exact .inr ⟨p₁, name, args, env', k', rfl, hrest⟩

theorem Sound.replaces_execIn (hk : k.Sound) (hp : p ∈ k.processes) (name : String)
    (argv : List String) (env : Environment) (denied : Bool) (last : Errno)
    (dirs : List String) : Replaces p k (execIn p name argv env denied last dirs k) := by
  induction dirs generalizing denied last with
  | nil => exact .inl ⟨_, rfl⟩
  | cons dir dirs ih =>
    unfold execIn
    obtain ⟨e, heq⟩ | ⟨p₁, name', args, env', k', heq, hrest⟩ := hk.replaces_execFile hp
      (if dir.isEmpty then name else dir ++ "/" ++ name) argv env
    · rw [heq]
      dsimp only
      split
      · exact ih _ _
      · exact .inl ⟨e, rfl⟩
    · rw [heq]
      exact .inr ⟨p₁, name', args, env', k', rfl, hrest⟩

theorem Sound.replaces_execSearch (hk : k.Sound) (hp : p ∈ k.processes) (name : String)
    (argv : List String) (env : Environment) :
    Replaces p k (k.execSearch p name argv env) := by
  unfold execSearch
  split
  · exact .inl ⟨_, rfl⟩
  · split
    · exact hk.replaces_execFile hp _ _ _
    · split
      · exact .inl ⟨_, rfl⟩
      · exact hk.replaces_execIn hp _ _ _ _ _ _

/-- What waiting for a process brings: nothing, if it is no child, its end, with which it goes
off the list, a stop, which is marked as reported, or word that it is alive. -/
theorem Sound.wait_cases (hk : k.Sound) {pid : Pid} {options : WaitOptions}
    {answer : Except Errno WaitStatus} (h : k.wait p pid options = .answer answer k') :
    (∀ child ∈ k.processes, child.pid = pid → child.parent ≠ p.pid) ∧ k' = k ∨
      ∃ child ∈ k.processes, child.pid = pid ∧ child.parent = p.pid ∧
        ((∃ status, child.life = .ended status ∧ answer = .ok status ∧
            k' = k.removeProcess pid) ∨
          (∃ signal, child.life = .stopped signal false ∧ options.untraced = true ∧
            answer = .ok (.stopped signal) ∧
            k' = k.setProcess { child with life := .stopped signal true }) ∨
          options.noHang = true ∧ answer = .ok .stillAlive ∧ k' = k) := by
  have hnothing (h : wait.nothingYet k options = .answer answer k') :
      options.noHang = true ∧ answer = .ok .stillAlive ∧ k' = k := by
    unfold wait.nothingYet at h
    split at h
    · rename_i hnow
      cases h
      exact ⟨hnow, rfl, rfl⟩
    · cases h
  unfold wait at h
  split at h
  · rename_i hnone
    cases h
    refine .inl ⟨fun child hchild hpid _ => ?_, rfl⟩
    rw [hk.process?_eq_some_iff.mpr ⟨hchild, hpid⟩] at hnone
    cases hnone
  · rename_i child hchild
    obtain ⟨hchild, hpid⟩ := hk.process?_eq_some_iff.mp hchild
    split at h
    · rename_i hparent
      cases h
      refine .inl ⟨fun q hq hqpid => ?_, rfl⟩
      rwa [hk.eq_of_pid hq hchild (hqpid.trans hpid.symm)]
    · rename_i hparent
      refine .inr ⟨child, hchild, hpid, not_not.mp hparent, ?_⟩
      split at h
      · rename_i status hlife
        cases h
        exact .inl ⟨status, hlife, rfl, rfl⟩
      · rename_i signal hlife
        split at h
        · rename_i huntraced
          cases h
          exact .inr (.inl ⟨signal, hlife, huntraced, rfl, rfl⟩)
        · exact .inr (.inr (hnothing h))
      · exact .inr (.inr (hnothing h))

theorem Sound.removeProcess (hk : k.Sound) (pid : Pid) : (k.removeProcess pid).Sound := by
  have hmem {q : Process} (hq : q ∈ (k.removeProcess pid).processes) : q ∈ k.processes :=
    (List.mem_filter.mp hq).1
  exact ⟨hk.increasing.sublist (List.filter_sublist.map _), fun q hq => hk.numbered q (hmem hq),
    fun q hq => hk.fits q (hmem hq), fun q hq => hk.ordered q (hmem hq),
    fun q hq => hk.opened q (hmem hq), hk.piped⟩

theorem Replaces.answered {outcome : Outcome Errno} {e : Errno} (h : Replaces p k outcome)
    (heq : outcome = .answer e k') : k' = k := by
  obtain ⟨_, rfl⟩ | ⟨_, _, _, _, _, rfl, _⟩ := h <;> cases heq
  rfl

theorem Replaces.not_block {outcome : Outcome Errno} {moved : Bool} (h : Replaces p k outcome) :
    outcome ≠ .block k' moved := by
  obtain ⟨_, rfl⟩ | ⟨_, _, _, _, _, rfl, _⟩ := h <;> exact nofun

theorem Replaces.serves {outcome : Outcome Errno} (h : Replaces p k outcome) (hk : k.Sound)
    (hp : p ∈ k.processes) : ∃ p₁, Serves p p₁ k outcome.kernel := by
  obtain ⟨_, rfl⟩ | ⟨p₁, _, _, _, _, rfl, -, hserves⟩ := h
  · exact ⟨p, (Ages.refl k).serves hk hp⟩
  · exact ⟨p₁, hserves⟩

theorem Sound.drifts_quiet {β : Type} (hk : k.Sound) (hp : p ∈ k.processes) {call : Call β}
    (hcall : manner call = .quiet) : Drifts k (k.perform p call).kernel := by
  cases call with
  | openFile | close | pipe | duplicate | duplicateFrom | changeDirectory | write | makeDirectory
  | removeDirectory | unlink | changePermissions | exec | execSearch | abort | wait | setGroup
  | setForeground => cases hcall
  | read fd count => exact hk.drifts_read fd count
  | moveBack fd count => exact drifts_moveBack fd count
  | kill target signal => exact hk.drifts_kill target signal
  | setDisposition signal disposition => exact hk.drifts_setDisposition hp signal disposition
  | record signal => exact hk.drifts_record hp signal
  | sleep milliseconds => exact hk.drifts_sleep hp milliseconds
  | setModes fd => exact hk.drifts_setModes fd
  | mask | limitFiles | forget | relayTo => exact hk.drifts_with hp rfl
  | workingDirectory | list | inspect | inspectFd | processId | parentId | groupId | isTerminal
  | foreground | hasArrived => exact .refl k

theorem Sound.ages_files {β : Type} (hk : k.Sound) {call : Call β}
    (hcall : manner call = .files) : Ages k (k.perform p call).kernel := by
  cases call with
  | write fd data => exact hk.ages_write fd data
  | makeDirectory path permissions => exact ages_makeDirectory path permissions
  | removeDirectory path => exact ages_removeDirectory path
  | unlink path => exact ages_unlink path
  | changePermissions fd permissions => exact ages_changePermissions fd permissions
  | _ => cases hcall

/-- A process that was to become another program and is told of it has not. -/
theorem Sound.eq_of_leaving {β : Type} (hk : k.Sound) (hp : p ∈ k.processes) {call : Call β}
    (hcall : manner call = .leaving) {answer : β} (h : k.perform p call = .answer answer k') :
    k' = k := by
  cases call with
  | exec path argv env => exact (hk.replaces_exec hp path argv env).answered h
  | execSearch name argv env => exact (hk.replaces_execSearch hp name argv env).answered h
  | abort => exact answer.elim
  | _ => cases hcall

def ChangesDirectory {β : Type} : Call β → Prop
  | .changeDirectory _ => True
  | _ => False

/-- In a call of its own the caller gets other descriptors or another directory. -/
theorem Sound.serves_own {β : Type} (hk : k.Sound) (hp : p ∈ k.processes) {call : Call β}
    (hcall : manner call = .own) : ∃ files opening cwd, (¬ ChangesDirectory call → cwd = p.cwd) ∧
      Serves p { p with files, opening, cwd } k (k.perform p call).kernel := by
  have hsame {outcome : Outcome β} (h : outcome.kernel = k) : ∃ files opening cwd,
      (¬ ChangesDirectory call → cwd = p.cwd) ∧
        Serves p { p with files, opening, cwd } k outcome.kernel :=
    ⟨_, _, _, fun _ => rfl, (Ages.of_eq h).serves hk hp⟩
  cases call with
  | openFile path flags permissions =>
    obtain ⟨_, _, hserves, -⟩ := hk.opens_openPath hp path flags permissions
    exact ⟨_, _, _, fun _ => rfl, hserves⟩
  | close fd =>
    obtain hserves | ⟨-, heq⟩ := hk.close_cases hp rfl
    · exact ⟨_, _, _, fun _ => rfl, hserves⟩
    · exact hsame heq
  | pipe =>
    obtain ⟨_, _, _, _, _, _, _, _, _, _, hserves⟩ | ⟨-, heq⟩ := hk.makePipe_cases hp rfl
    · exact ⟨_, _, _, fun _ => rfl, hserves⟩
    · exact hsame heq
  | duplicate source target =>
    obtain ⟨_, _, _, ⟨-, heq⟩ | hserves⟩ | ⟨-, heq, -⟩ := hk.duplicate_cases hp rfl
    · exact hsame heq
    · exact ⟨_, _, _, fun _ => rfl, hserves⟩
    · exact hsame heq
  | duplicateFrom source lowest =>
    obtain ⟨_, _, _, _, _, hserves⟩ | ⟨-, heq, -⟩ := hk.duplicateFrom_cases hp rfl
    · exact ⟨_, _, _, fun _ => rfl, hserves⟩
    · exact hsame heq
  | changeDirectory path =>
    obtain ⟨_, _, hserves⟩ | ⟨-, heq⟩ := hk.changeDirectory_cases hp rfl
    · exact ⟨_, _, _, fun hnot => absurd trivial hnot, hserves⟩
    · exact hsame heq
  | _ => cases hcall

/-- However a call comes out, only what is special changes another process. -/
theorem Sound.serves_perform {β : Type} (hk : k.Sound) (hp : p ∈ k.processes)
    (hlive : p.hasEnded = false) {call : Call β} (hcall : manner call ≠ .special) :
    ∃ p₁, Serves p p₁ k (k.perform p call).kernel := by
  cases hmanner : manner call with
  | quiet => exact ⟨p, (hk.drifts_quiet hp hmanner).toAges.serves hk hp⟩
  | files => exact ⟨p, (hk.ages_files hmanner).serves hk hp⟩
  | own =>
    obtain ⟨_, _, _, -, hserves⟩ := hk.serves_own hp hmanner
    exact ⟨_, hserves⟩
  | leaving =>
    cases call with
    | exec path argv env => exact (hk.replaces_exec hp path argv env).serves hk hp
    | execSearch name argv env => exact (hk.replaces_execSearch hp name argv env).serves hk hp
    | abort => exact ⟨p, (hk.drifts_terminate hp hlive rfl).toAges.serves hk hp⟩
    | _ => cases hmanner
  | special => exact absurd hmanner hcall

end

end Kernel

end JobShell
