import JobShell.Host.Surroundings
import JobShell.Proofs.DrivenRuns

/-!
A host is started with a system that fits together, in which its process has no children yet and
no pipes. So whatever is run in that process is a run of a ledger that begins empty, and of
descriptors that begin with standard input, output and error.
-/
namespace JobShell.Host

open Kernel (Grows NodeId Process Slot rootNode)

section

variable {k : Kernel} {directory : NodeId}

theorem grows_ensure (names : List String) : Grows k (ensure k directory names).2 := by
  induction names generalizing k directory with
  | nil => exact .refl k
  | cons name names ih =>
    unfold ensure
    split
    · exact ih
    · exact (Kernel.grows_link directory name _).trans ih

theorem grows_put (path : String) (node : Kernel.Node) : Grows k (put k directory path node) := by
  unfold put
  dsimp only
  split
  · exact .refl k
  · rename_i name _
    have hmade : Grows k (ensure k directory (Kernel.components path).dropLast).2 := grows_ensure _
    split
    · exact hmade.trans (Kernel.grows_setNode _ _)
    · exact hmade.trans (Kernel.grows_link _ name node)

theorem grows_setPermissions (path : String) (permissions : Nat) :
    Grows k (setPermissions k directory path permissions) := by
  unfold setPermissions
  split
  · split
    · exact Kernel.grows_setNode _ _
    · exact .refl k
  · exact .refl k

theorem grows_putFifo (path : String) : Grows k (putFifo k directory path) := by
  have hpipe : Grows k (k.addPipe {}).2 := .of_openFiles rfl rfl rfl (by simp [Kernel.addPipe]) rfl
  exact hpipe.trans (grows_put _ _)

theorem grows_freshKernel (driver : Pid) : Grows (emptyKernel driver) (freshKernel driver) := by
  -- The last directory, the links and the devices, and before them the programs.
  iterate 10 refine Grows.trans ?_ (grows_put _ _)
  refine Grows.trans ?_ (Kernel.grows_foldl (fun _ _ => grows_put _ _) shellPrograms _)
  refine Grows.trans ?_ (Kernel.grows_foldl (fun _ _ => grows_put _ _) utilities _)
  exact Kernel.grows_foldl (fun _ _ => grows_ensure _) _ _

theorem grows_furnish (s : Surroundings) (root : NodeId) : Grows k (s.furnish root k) :=
  ((((Kernel.grows_foldl (fun _ _ => grows_ensure _) s.directories k).trans
    (Kernel.grows_foldl (fun _ _ => grows_put _ _) s.files _)).trans
    (Kernel.grows_foldl (fun _ _ => grows_setPermissions _ _) s.modes _)).trans
    (Kernel.grows_foldl (fun _ _ => grows_put _ _) s.links _)).trans
    (Kernel.grows_foldl (fun _ _ => grows_putFifo _) s.fifos _)

theorem grows_addNode (node : Kernel.Node) : Grows k (k.addNode node).2 :=
  .of_openFiles rfl rfl rfl (Nat.le_refl _) rfl

/-- An open file that is on no pipe. -/
theorem grows_addFile {file : Kernel.OpenFile} (hfile : ∀ id, file.subject ≠ .pipe id) :
    Grows k (k.addOpenFile file).2 :=
  Kernel.grows_addOpenFile fun id hid => absurd hid (hfile id)

theorem grows_keepFile : Grows k (keepFile k).2.2 :=
  (grows_addNode _).trans (grows_addFile fun _ h => nomatch h)

theorem keepFile_lt : (keepFile k).2.1 < (keepFile k).2.2.openFiles.size :=
  Kernel.addOpenFile_lt _

theorem grows_openInput (feed : Feed) : Grows k (openInput k feed).2 := by
  cases feed with
  | nothing => exact grows_addFile fun _ h => nomatch h
  | closed => exact .refl k
  | file data => exact (grows_addNode _).trans (grows_addFile fun _ h => nomatch h)
  | typed data =>
    have hopens : Grows k
        (k.addOpenFile { subject := .device .terminal, access := .readWrite }).2 :=
      grows_addFile fun _ h => nomatch h
    exact hopens.trans (.of_openFiles rfl rfl rfl (Nat.le_refl _) rfl)

theorem openInput_lt {feed : Feed} {file : Kernel.OpenId} (h : (openInput k feed).1 = some file) :
    file < (openInput k feed).2.openFiles.size := by
  cases feed with
  | closed => cases h
  | nothing | file | typed =>
    obtain rfl := Option.some.inj h
    exact Kernel.addOpenFile_lt _

end

theorem sound_emptyKernel (driver : Pid) : (emptyKernel driver).Sound where
  increasing := .nil
  numbered _ hp := absurd hp List.not_mem_nil
  fits _ hp := absurd hp List.not_mem_nil
  ordered _ hp := absurd hp List.not_mem_nil
  opened _ hp := absurd hp List.not_mem_nil
  piped _ hfile := absurd hfile (Array.not_mem_empty _)

/-- A system whose only process is this one. -/
theorem sound_alone {k : Kernel} {p : Process} (hk : k.Sound) (hpos : 0 < p.pid)
    (hlt : p.pid < k.nextPid) (hfits : p.life.Fits) (hordered : p.files.Ordered)
    (hopened : ∀ id ∈ p.openIds, id < k.openFiles.size) :
    Kernel.Sound { k with processes := [p] } where
  increasing := List.pairwise_singleton _ _
  numbered _ hq := by
    rw [List.mem_singleton.mp hq]
    exact ⟨hpos, hlt⟩
  fits _ hq := List.mem_singleton.mp hq ▸ hfits
  ordered _ hq := List.mem_singleton.mp hq ▸ hordered
  opened _ hq := List.mem_singleton.mp hq ▸ hopened
  piped := hk.piped

theorem ordered_standardFiles (input : Option Kernel.OpenId) (output errors : Kernel.OpenId) :
    (standardFiles input output errors).Ordered := by
  unfold standardFiles
  refine (Numbered.Ordered.put ?_ _ _).put _ _
  split
  · exact Numbered.ordered_nil.put _ _
  · exact Numbered.ordered_nil

theorem mem_standardFiles {input : Option Kernel.OpenId} {output errors : Kernel.OpenId}
    {entry : Nat × Slot} (h : entry ∈ (standardFiles input output errors).entries) :
    entry.2.file = output ∨ entry.2.file = errors ∨ input = some entry.2.file := by
  unfold standardFiles at h
  obtain rfl | h := Numbered.mem_putEntry h
  · exact .inr (.inl rfl)
  obtain rfl | h := Numbered.mem_putEntry h
  · exact .inl rfl
  split at h
  · obtain rfl | h := Numbered.mem_putEntry h
    · exact .inr (.inr rfl)
    · cases h
  · cases h

/-- What a host is started with. -/
theorem boot_spec (s : Surroundings) : ∃ k root input output errors,
    s.boot.machine.kernel =
        { k with processes := [driverProcess root (standardFiles input output errors)] } ∧
      Grows (emptyKernel driverPid) k ∧ output < k.openFiles.size ∧ errors < k.openFiles.size ∧
      ∀ file, input = some file → file < k.openFiles.size := by
  let home := ensure (freshKernel driverPid) rootNode (Kernel.components rootPath)
  let k₁ := s.furnish home.1 home.2
  let k₂ := (keepFile k₁).2.2
  let k₃ := (keepFile k₂).2.2
  have hfurnished : Grows (emptyKernel driverPid) k₁ :=
    ((grows_freshKernel _).trans (grows_ensure _)).trans (grows_furnish s home.1)
  have hinput : Grows k₃ (openInput k₃ s.input).2 := grows_openInput s.input
  have herrors : Grows k₂ k₃ := grows_keepFile
  exact ⟨(openInput k₃ s.input).2, home.1, (openInput k₃ s.input).1, (keepFile k₁).2.1,
    (keepFile k₂).2.1, rfl, ((hfurnished.trans grows_keepFile).trans herrors).trans hinput,
    hinput.opened (herrors.opened keepFile_lt), hinput.opened keepFile_lt, fun _ => openInput_lt⟩

/-- A host is started in a system that fits together. -/
theorem fits_boot (s : Surroundings) : s.boot.machine.Fits s.boot.driver := by
  obtain ⟨k, root, input, output, errors, heq, hgrows, houtput, herrors, hinput⟩ := boot_spec s
  have hnext : driverPid < k.nextPid := by
    rw [hgrows.nextPid]
    decide
  have hsound : k.Sound := (sound_emptyKernel _).ages hgrows.ages
  refine ⟨?_, ?_, fun _ h => absurd h List.not_mem_nil⟩
  · rw [heq]
    refine sound_alone hsound (show 0 < driverPid by decide) hnext trivial
      (ordered_standardFiles input output errors) fun id hid => ?_
    obtain ⟨entry, hentry, rfl⟩ | ⟨_, ho, -⟩ := Kernel.mem_openIds.mp hid
    · obtain heq | heq | heq := mem_standardFiles hentry
      · exact heq ▸ houtput
      · exact heq ▸ herrors
      · exact hinput _ heq
    · cases ho
  · rw [heq]
    exact hnext

/-- What a host runs in its process to a value is a run with that value, after which the host is
ready for the next. -/
theorem runs_run {α : Type} {h h' : Host} {program : Program α} {a : α}
    (hrun : h.run program = (some a, h')) (hfits : h.machine.Fits h.driver) :
    h'.machine.Fits h'.driver ∧ ∃ t, program.Runs t a ∧
      Kernel.Sees h.driver (fun _ _ => True) h.machine.kernel t h'.machine.kernel := by
  unfold run at hrun
  cases hdrive : h.machine.drive library h.driver patience program with
  | mk value machine =>
    rw [hdrive] at hrun
    obtain ⟨rfl, rfl⟩ := Prod.mk.inj hrun
    exact Machine.drive_runs hdrive hfits

theorem books_boot (s : Surroundings) : s.boot.machine.kernel.Books s.boot.driver {} := by
  obtain ⟨k, root, input, output, errors, heq, -⟩ := boot_spec s
  rw [heq]
  refine fun child => ⟨fun h => absurd h List.not_mem_nil, ?_⟩
  rintro ⟨q, hq, -, hparent⟩
  rw [List.mem_singleton.mp hq] at hparent
  exact absurd hparent (show (1 : Pid) ≠ driverPid by decide)

/-- So the children that a program has started on a fresh host are those of its run. -/
theorem ledger_run {α : Type} {s : Surroundings} {h : Host} {program : Program α} {a : α}
    (hrun : s.boot.run program = (some a, h)) :
    ∃ t l, program.Runs t a ∧ Leads Ledger.Step {} t l ∧
      h.machine.kernel.Books s.boot.driver l := by
  obtain ⟨-, t, hruns, hsees⟩ := runs_run hrun (fits_boot s)
  obtain ⟨l, hleads, hbooks⟩ := hsees.ledger (fits_boot s).sound Ledger.sound_empty (books_boot s)
  exact ⟨t, l, hruns, hleads, hbooks⟩

end JobShell.Host
