import Mathlib.Logic.Function.Basic
import JobShell.Proofs.Contract
import JobShell.Proofs.Reached
import JobShell.Proofs.Requests
import JobShell.Proofs.Wiring

/-!
Redirections in the shell and in a new process. Both come to the same: the targets are opened in
order up to the first that cannot be, and the streams end up on what was opened for them last. The
shell keeps copies of what it replaces, on descriptors that no redirection can name, so the two
may only differ where opening a path depends on whether such a descriptor is in use.
-/
namespace JobShell

open Program

variable {σ ο : Type}

/-- A path that was opened, with the flags and permissions that were asked for, and what came. -/
structure Opening (ο : Type) where
  path : String
  flags : OpenFlags
  permissions : Nat
  given : Except Errno ο

/-- Files as processes find them: what opening a path gives, and what it makes of the files. Both
may depend on what the process has open, as there are paths that name descriptors. -/
structure FileSystem (σ ο : Type) where
  opens : σ → (Fd → Option ο) → String → OpenFlags → Nat → Except Errno ο × σ
  /-- That a call was cut short is no answer of the files. -/
  settles : ∀ files slots path flags permissions,
    (opens files slots path flags permissions).1 ≠ .error .interrupted

/-- The files, what a process has on its descriptors, and what it has opened so far. -/
structure Scene (σ ο : Type) where
  files : σ
  slots : Fd → Option ο
  opened : List (Opening ο) := []

/-- What an exchange makes of the scene. A call that is cut short has done nothing. An open
descriptor can be copied onto another; for a copy of its own there may be no descriptor left. -/
def Scene.Step (fs : FileSystem σ ο) (w : Scene σ ο) : Event → Scene σ ο → Prop
  | .call (.openFile path flags permissions) answer, w' =>
    match answer with
    | .ok fd => w.slots fd = none ∧ ∃ file files,
        fs.opens w.files w.slots path flags permissions = (.ok file, files) ∧ w' = {
          files
          slots := Function.update w.slots fd (some file)
          opened := w.opened ++ [⟨path, flags, permissions, .ok file⟩] }
    | .error e => e = .interrupted ∧ w' = w ∨ ∃ files,
        fs.opens w.files w.slots path flags permissions = (.error e, files) ∧
        w' = { w with files, opened := w.opened ++ [⟨path, flags, permissions, .error e⟩] }
  | .call .pipe answer, w' =>
    match answer with
    | .ok (reading, writing) => ∃ a b, w' = { w with
        slots := Function.update (Function.update w.slots reading (some a)) writing (some b) }
    | .error _ => w' = w
  | .call (.duplicate source target) answer, w' =>
    match answer with
    | .ok () => ∃ file, w.slots source = some file ∧
        w' = { w with slots := Function.update w.slots target (some file) }
    | .error e => e = .interrupted ∧ w' = w
  | .call (.duplicateFrom source least) answer, w' =>
    match answer with
    | .ok copy => least ≤ copy ∧ w.slots copy = none ∧ ∃ file, w.slots source = some file ∧
        w' = { w with slots := Function.update w.slots copy (some file) }
    | .error _ => w' = w
  | .call (.close fd) _, w' => w' = { w with slots := Function.update w.slots fd none }
  | _, w' => ∃ files, w' = { w with files }

def Redirection.opening (r : Redirection) (given : Except Errno ο) : Opening ο :=
  ⟨r.target, r.mode.flags, 0o666, given⟩

namespace FileSystem

variable (fs : FileSystem σ ο)

/-- One redirection: its target is opened, and its stream is put on what that gave. -/
def apply (w : Scene σ ο) (r : Redirection) : Except SetupError Unit × Scene σ ο :=
  match fs.opens w.files w.slots r.target r.mode.flags 0o666 with
  | (.error e, files) =>
    (.error (.redirect r.target e), { w with files, opened := w.opened ++ [r.opening (.error e)] })
  | (.ok file, files) =>
    (.ok (), {
      files
      slots := Function.update w.slots r.stream.fd (some file)
      opened := w.opened ++ [r.opening (.ok file)] })

/-- Redirections in order, up to the first that fails. -/
def redirect (w : Scene σ ο) : List Redirection → Except SetupError Unit × Scene σ ο
  | [] => (.ok (), w)
  | r :: rs =>
    match fs.apply w r with
    | (.error e, w) => (.error e, w)
    | (.ok (), w) => redirect w rs

/-- Opening the path does not depend on which descriptors above those of redirections are in use. -/
def Overlooks (path : String) : Prop :=
  ∀ files slots slots' flags permissions,
    (∀ fd, slots' fd = slots fd ∨ firstSavedFd ≤ fd ∧ slots fd = none) →
    fs.opens files slots' path flags permissions = fs.opens files slots path flags permissions

end FileSystem

/-- Nothing is asked for but changes of descriptors and, of these openings, the next one. -/
def Opens (all : List (Opening ο)) (w : Scene σ ο) : Request → Prop
  | .call (.openFile path flags permissions) =>
    ∃ given, w.opened ++ [⟨path, flags, permissions, given⟩] <+: all
  | r => r.OnDescriptors

/-- The scene `w'` is `w` but for further descriptors above those of redirections. -/
structure Scene.Beside (w w' : Scene σ ο) : Prop where
  files : w'.files = w.files
  opened : w'.opened = w.opened
  slots : ∀ fd, w'.slots fd = w.slots fd ∨ firstSavedFd ≤ fd ∧ w.slots fd = none

section

variable {fd target : Fd} {t : List Event} {result : Except SetupError Unit}

/-- How the shell moves an open file to another descriptor. -/
def moveInShell (fd target : Fd) : Program (Except SetupError Unit) := do
  let moved ← retry (.duplicate fd target)
  let _ ← ask (.close fd)
  match moved with
  | .error e => return .error (.step "dup2" e)
  | .ok () => return .ok ()

/-- How a new process moves an open file to another descriptor. -/
def moveInStage (fd target : Fd) : Program (Except SetupError Unit) := do
  match ← retry (.duplicate fd target) with
  | .error e => return .error (.step "dup2" e)
  | .ok () =>
    let _ ← ask (.close fd)
    return .ok ()

theorem Redirection.apply_eq (r : Redirection) :
    r.apply = (retry (.openFile r.target r.mode.flags 0o666)).bind fun
      | .error e => done (.error (.redirect r.target e))
      | .ok fd => if fd = r.stream.fd then done (.ok ()) else moveInShell fd r.stream.fd := rfl

theorem Redirection.applyInStage_eq (r : Redirection) :
    r.applyInStage = (retry (.openFile r.target r.mode.flags 0o666)).bind fun
      | .error e => done (.error (.redirect r.target e))
      | .ok fd => if fd = r.stream.fd then done (.ok ()) else moveInStage fd r.stream.fd := rfl

theorem runs_moveInStage : Runs (moveInStage fd target) t result ↔
    (∃ e, result = .error (.step "dup2" e) ∧ Runs (retry (.duplicate fd target)) t (.error e)) ∨
    ∃ u answer, result = .ok () ∧ Runs (retry (.duplicate fd target)) u (.ok ()) ∧
      t = u ++ [.call (.close fd) answer] := by
  constructor
  · intro h
    obtain ⟨u, v, moved, rfl, hmoved, h⟩ := runs_bind.mp h
    cases moved with
    | error e =>
      obtain ⟨rfl, rfl⟩ := runs_done.mp h
      exact .inl ⟨e, rfl, by simpa using hmoved⟩
    | ok value =>
      obtain ⟨_, _, answer, rfl, hclosed, hend⟩ := runs_bind.mp h
      obtain rfl := runs_ask.mp hclosed
      obtain ⟨rfl, rfl⟩ := runs_done.mp hend
      exact .inr ⟨u, answer, rfl, hmoved, rfl⟩
  · rintro (⟨e, rfl, hmoved⟩ | ⟨u, answer, rfl, hmoved, rfl⟩)
    · exact runs_bind.mpr ⟨t, [], _, (List.append_nil t).symm, hmoved, .refl _⟩
    · exact runs_bind.mpr ⟨u, _, _, rfl, hmoved, .call answer (.refl _)⟩

theorem runs_moveInShell : Runs (moveInShell fd target) t result ↔
    ∃ u answer, t = u ++ [.call (.close fd) answer] ∧
      ((∃ e, result = .error (.step "dup2" e) ∧ Runs (retry (.duplicate fd target)) u (.error e)) ∨
        result = .ok () ∧ Runs (retry (.duplicate fd target)) u (.ok ())) := by
  constructor
  · intro h
    obtain ⟨u, v, moved, rfl, hmoved, h⟩ := runs_bind.mp h
    obtain ⟨_, _, answer, rfl, hclosed, hend⟩ := runs_bind.mp h
    obtain rfl := runs_ask.mp hclosed
    refine ⟨u, answer, ?_⟩
    cases moved with
    | error e =>
      obtain ⟨rfl, rfl⟩ := runs_done.mp hend
      exact ⟨rfl, .inl ⟨e, rfl, hmoved⟩⟩
    | ok value =>
      obtain ⟨rfl, rfl⟩ := runs_done.mp hend
      exact ⟨rfl, .inr ⟨rfl, hmoved⟩⟩
  · rintro ⟨u, answer, rfl, ⟨e, rfl, hmoved⟩ | ⟨rfl, hmoved⟩⟩
    · exact runs_bind.mpr ⟨u, _, _, rfl, hmoved, .call answer (.refl _)⟩
    · exact runs_bind.mpr ⟨u, _, _, rfl, hmoved, .call answer (.refl _)⟩

/-- The result of a redirection whose target was opened but could not be moved. -/
def Unmoved (result : Except SetupError Unit) : Prop := ∃ e, result = .error (.step "dup2" e)

theorem runs_moveInShell_iff : Runs (moveInShell fd target) t result ↔
    ¬ Unmoved result ∧ Runs (moveInStage fd target) t result ∨
    Unmoved result ∧ ∃ u answer, Runs (moveInStage fd target) u result ∧
      t = u ++ [.call (.close fd) answer] := by
  simp only [runs_moveInShell, runs_moveInStage, Unmoved]
  constructor
  · rintro ⟨u, answer, rfl, ⟨e, rfl, hmoved⟩ | ⟨rfl, hmoved⟩⟩
    · exact .inr ⟨⟨e, rfl⟩, u, answer, .inl ⟨e, rfl, hmoved⟩, rfl⟩
    · exact .inl ⟨nofun, .inr ⟨u, answer, rfl, hmoved, rfl⟩⟩
  · rintro (⟨hne, ⟨e, rfl, -⟩ | ⟨u, answer, rfl, hmoved, rfl⟩⟩ |
      ⟨⟨e, rfl⟩, u, answer, ⟨e', he, hmoved⟩ | ⟨_, _, he, -⟩, rfl⟩)
    · exact absurd ⟨e, rfl⟩ hne
    · exact ⟨u, answer, rfl, .inr ⟨rfl, hmoved⟩⟩
    · exact ⟨u, answer, rfl, .inl ⟨e', he, hmoved⟩⟩
    · cases he

/-- The shell and a new process carry out a redirection by the same exchanges, with the same
result, but for one thing: where the file that was opened cannot be moved to the descriptor of its
stream, the shell closes it and the new process leaves it open. -/
theorem Redirection.runs_apply_iff (r : Redirection) : Runs r.apply t result ↔
    ¬ Unmoved result ∧ Runs r.applyInStage t result ∨
    Unmoved result ∧ ∃ u v fd answer, Runs r.applyInStage (u ++ v) result ∧
      Runs (retry (.openFile r.target r.mode.flags 0o666)) u (.ok fd) ∧
      t = u ++ v ++ [.call (.close fd) answer] := by
  rw [r.apply_eq, r.applyInStage_eq]
  constructor
  · intro h
    obtain ⟨u, v, opened, rfl, hopened, h⟩ := runs_bind.mp h
    cases opened with
    | error e =>
      refine .inl ⟨?_, hopened.bind_iff.mpr h⟩
      obtain ⟨-, rfl⟩ := runs_done.mp h
      simp [Unmoved]
    | ok fd =>
      dsimp only at h
      split at h
      · rename_i hfd
        refine .inl ⟨?_, hopened.bind_iff.mpr ?_⟩
        · obtain ⟨-, rfl⟩ := runs_done.mp h
          simp [Unmoved]
        · dsimp only
          rwa [if_pos hfd]
      · rename_i hfd
        obtain ⟨hmoved, h⟩ | ⟨hunmoved, w, answer, h, rfl⟩ := runs_moveInShell_iff.mp h
        · refine .inl ⟨hmoved, hopened.bind_iff.mpr ?_⟩
          dsimp only
          rwa [if_neg hfd]
        · refine .inr ⟨hunmoved, u, w, fd, answer, hopened.bind_iff.mpr ?_, hopened, by simp⟩
          dsimp only
          rwa [if_neg hfd]
  · rintro (⟨hmoved, h⟩ | ⟨hunmoved, u, v, fd, answer, h, hopened, rfl⟩)
    · obtain ⟨u, v, opened, rfl, hopened, h⟩ := runs_bind.mp h
      refine hopened.bind_iff.mpr ?_
      cases opened with
      | error e => exact h
      | ok fd =>
        dsimp only at h ⊢
        split at h
        · rename_i hfd
          rwa [if_pos hfd]
        · rename_i hfd
          rw [if_neg hfd]
          exact runs_moveInShell_iff.mpr (.inl ⟨hmoved, h⟩)
    · rw [List.append_assoc]
      refine hopened.bind_iff.mpr ?_
      replace h := hopened.bind_iff.mp h
      dsimp only at h ⊢
      split at h
      · obtain ⟨-, rfl⟩ := runs_done.mp h
        obtain ⟨e, he⟩ := hunmoved
        cases he
      · rename_i hfd
        rw [if_neg hfd]
        exact runs_moveInShell_iff.mpr (.inr ⟨hunmoved, v, answer, h, rfl⟩)

end

section

variable {fs : FileSystem σ ο} {w w' : Scene σ ο} {all : List (Opening ο)}

theorem ensures_duplicate_scene {source target : Fd} {file : ο} (h : w.slots source = some file) :
    Ensures (Scene.Step fs) (Opens all) w (retry (.duplicate source target)) fun w' answer =>
      answer = .ok () ∧ w' = { w with slots := Function.update w.slots target (some file) } := by
  refine ensures_retry (· = w) rfl (fun _ _ => trivial) ?_ ?_
  · rintro _ w' rfl ⟨-, rfl⟩
    rfl
  · rintro _ answer w' rfl hne hs
    cases answer with
    | error e =>
      obtain ⟨rfl, -⟩ := hs
      exact absurd rfl hne
    | ok value =>
      obtain ⟨file', hsource, rfl⟩ := hs
      obtain rfl : file = file' := Option.some.inj (h.symm.trans hsource)
      exact ⟨rfl, rfl⟩

theorem ensures_close_scene (fd : Fd) :
    Ensures (Scene.Step fs) (Opens all) w (ask (.close fd)) fun w' _ =>
      w' = { w with slots := Function.update w.slots fd none } :=
  ensures_ask trivial fun _ _ hs => hs

/-- A path is opened as the files say, on a free descriptor. -/
theorem ensures_open_scene {path : String} {flags : OpenFlags} {permissions : Nat}
    {given : Except Errno ο} {files : σ}
    (h : fs.opens w.files w.slots path flags permissions = (given, files))
    (hnext : w.opened ++ [⟨path, flags, permissions, given⟩] <+: all) :
    Ensures (Scene.Step fs) (Opens all) w (retry (.openFile path flags permissions))
      fun w' answer => match given with
        | .error e => answer = .error e ∧
            w' = { w with files, opened := w.opened ++ [⟨path, flags, permissions, .error e⟩] }
        | .ok file => ∃ fd, answer = .ok fd ∧ w.slots fd = none ∧ w' = {
            files
            slots := Function.update w.slots fd (some file)
            opened := w.opened ++ [⟨path, flags, permissions, .ok file⟩] } := by
  have hsettles := fs.settles w.files w.slots path flags permissions
  rw [h] at hsettles
  refine ensures_retry (· = w) rfl ?_ ?_ ?_
  · rintro _ rfl
    exact ⟨given, hnext⟩
  · rintro _ w' rfl hs
    obtain ⟨-, rfl⟩ | ⟨files', hopens, -⟩ := hs
    · rfl
    · rw [h, Prod.mk.injEq] at hopens
      exact absurd hopens.1 hsettles
  · rintro _ answer w' rfl hne hs
    cases answer with
    | error e =>
      obtain ⟨rfl, -⟩ | ⟨files', hopens, rfl⟩ := hs
      · exact absurd rfl hne
      · rw [h, Prod.mk.injEq] at hopens
        obtain ⟨rfl, rfl⟩ := hopens
        exact ⟨rfl, rfl⟩
    | ok fd =>
      obtain ⟨hfree, file, files', hopens, rfl⟩ := hs
      rw [h, Prod.mk.injEq] at hopens
      obtain ⟨rfl, rfl⟩ := hopens
      exact ⟨fd, rfl, hfree, rfl⟩

/-- What is on the descriptor `fd`, alone on the descriptor `target`. -/
def Scene.moved (w : Scene σ ο) (fd target : Fd) (file : ο) : Scene σ ο :=
  { w with slots := Function.update (Function.update w.slots target (some file)) fd none }

/-- Between opening its target and having it on the descriptor of its stream a redirection goes on
in a way of its own. However it does, it comes to what it should, as long as its stream is open
before. -/
theorem ensures_opened_scene {r : Redirection} {move : Fd → Program (Except SetupError Unit)}
    (hopen : w.slots r.stream.fd ≠ none) (hnext : (fs.apply w r).2.opened <+: all)
    (hmove : ∀ (w₁ : Scene σ ο) fd file, w₁.slots fd = some file →
      Ensures (Scene.Step fs) (Opens all) w₁ (move fd) fun w' result =>
        result = .ok () ∧ w' = w₁.moved fd r.stream.fd file) :
    Ensures (Scene.Step fs) (Opens all) w
      ((retry (.openFile r.target r.mode.flags 0o666)).bind fun
        | .error e => done (.error (.redirect r.target e))
        | .ok fd => if fd = r.stream.fd then done (.ok ()) else move fd)
      fun w' result => (result, w') = fs.apply w r := by
  unfold FileSystem.apply at hnext ⊢
  cases h : fs.opens w.files w.slots r.target r.mode.flags 0o666 with
  | mk given files =>
    simp only [h] at hnext ⊢
    cases given with
    | error e =>
      refine Ensures.bind ((ensures_open_scene h hnext).mono ?_)
      rintro w₁ answer ⟨rfl, rfl⟩
      exact ensures_done rfl
    | ok file =>
      refine Ensures.bind ((ensures_open_scene h hnext).mono ?_)
      rintro w₁ answer ⟨fd, rfl, hfree, rfl⟩
      have hfd : fd ≠ r.stream.fd := by
        rintro rfl
        exact hopen hfree
      dsimp only
      rw [if_neg hfd]
      refine (hmove _ fd file (Function.update_self ..)).mono ?_
      rintro w' result ⟨rfl, rfl⟩
      simp only [Scene.moved, update_moved hfree hfd]
      rfl

theorem ensures_apply_scene {r : Redirection} (hopen : w.slots r.stream.fd ≠ none)
    (hnext : (fs.apply w r).2.opened <+: all) :
    Ensures (Scene.Step fs) (Opens all) w r.apply fun w' result => (result, w') = fs.apply w r := by
  refine ensures_opened_scene hopen hnext fun w₁ fd file hfile => ?_
  refine Ensures.bind ((ensures_duplicate_scene hfile).mono ?_)
  rintro w₂ moved ⟨rfl, rfl⟩
  refine Ensures.bind ((ensures_close_scene fd).mono ?_)
  rintro w₃ - rfl
  exact ensures_done ⟨rfl, rfl⟩

theorem ensures_applyInStage_scene {r : Redirection} (hopen : w.slots r.stream.fd ≠ none)
    (hnext : (fs.apply w r).2.opened <+: all) :
    Ensures (Scene.Step fs) (Opens all) w r.applyInStage
      fun w' result => (result, w') = fs.apply w r := by
  refine ensures_opened_scene hopen hnext fun w₁ fd file hfile => ?_
  refine Ensures.bind ((ensures_duplicate_scene hfile).mono ?_)
  rintro w₂ moved ⟨rfl, rfl⟩
  refine Ensures.bind ((ensures_close_scene fd).mono ?_)
  rintro w₃ - rfl
  exact ensures_done ⟨rfl, rfl⟩

end

section

variable {fs : FileSystem σ ο} {w w' : Scene σ ο} {r : Redirection} {rs : List Redirection}

theorem FileSystem.opened_apply (fs : FileSystem σ ο) (w : Scene σ ο) (r : Redirection) :
    ∃ given, (fs.apply w r).2.opened = w.opened ++ [r.opening given] := by
  unfold FileSystem.apply
  split
  · exact ⟨_, rfl⟩
  · exact ⟨_, rfl⟩

theorem FileSystem.opened_prefix (fs : FileSystem σ ο) (w : Scene σ ο) (rs : List Redirection) :
    w.opened <+: (fs.redirect w rs).2.opened := by
  induction rs generalizing w with
  | nil => exact List.prefix_refl _
  | cons r rs ih =>
    obtain ⟨given, hopened⟩ := fs.opened_apply w r
    have hfirst : w.opened <+: (fs.apply w r).2.opened := hopened ▸ List.prefix_append _ _
    unfold FileSystem.redirect
    split
    · rename_i heq
      rwa [heq] at hfirst
    · rename_i heq
      rw [heq] at hfirst
      exact hfirst.trans (ih _)

theorem FileSystem.opened_cons_prefix (fs : FileSystem σ ο) (w : Scene σ ο) (r : Redirection)
    (rs : List Redirection) :
    (fs.apply w r).2.opened <+: (fs.redirect w (r :: rs)).2.opened := by
  unfold FileSystem.redirect
  split
  · rename_i heq
    exact ⟨[], by simp [heq]⟩
  · rename_i heq
    rw [heq]
    exact fs.opened_prefix _ rs

/-- The streams stay open. -/
theorem FileSystem.open_apply {stream : Stream} (h : w.slots stream.fd ≠ none)
    (happly : fs.apply w r = (.ok (), w')) : w'.slots stream.fd ≠ none := by
  unfold FileSystem.apply at happly
  split at happly
  · cases happly
  · cases happly
    dsimp only
    by_cases heq : stream.fd = r.stream.fd
    · rw [heq, Function.update_self]
      simp
    · rwa [Function.update_of_ne heq]

/-- A new process comes to what the redirections should. -/
theorem ensures_applyRedirections_scene {all : List (Opening ο)}
    (hopen : ∀ stream : Stream, w.slots stream.fd ≠ none)
    (hall : (fs.redirect w rs).2.opened <+: all) :
    Ensures (Scene.Step fs) (Opens all) w (applyRedirections rs)
      fun w' result => (result, w') = fs.redirect w rs := by
  induction rs generalizing w with
  | nil => exact ensures_done rfl
  | cons r rs ih =>
    have hnext : (fs.apply w r).2.opened <+: all := (fs.opened_cons_prefix w r rs).trans hall
    refine Ensures.bind ((ensures_applyInStage_scene (hopen r.stream) hnext).mono ?_)
    intro w₁ result h
    unfold FileSystem.redirect at hall ⊢
    rw [← h] at hall ⊢
    cases result with
    | error e => exact ensures_done rfl
    | ok value => exact ih (fun stream => FileSystem.open_apply (hopen stream) h.symm) hall

theorem Scene.Beside.refl (w : Scene σ ο) : w.Beside w := ⟨rfl, rfl, fun _ => .inl rfl⟩

/-- A copy is not seen. -/
theorem Scene.Beside.copy {v : Scene σ ο} {answer : Except Errno Fd} {source : Fd}
    (h : w.Beside v) (hs : v.Step fs (.call (.duplicateFrom source firstSavedFd) answer) w') :
    w.Beside w' := by
  cases answer with
  | error e =>
    obtain rfl : w' = v := hs
    exact h
  | ok copy =>
    obtain ⟨hbound, hfree, file, -, rfl⟩ := hs
    refine ⟨h.files, h.opened, fun fd => ?_⟩
    by_cases hfd : fd = copy
    · subst hfd
      obtain hsame | hcopy := h.slots fd
      · exact .inr ⟨hbound, hsame ▸ hfree⟩
      · exact .inr hcopy
    · dsimp only
      rw [Function.update_of_ne hfd]
      exact h.slots fd

/-- The shell opens what a new process would, with the same outcome. -/
theorem Scene.Beside.apply {v : Scene σ ο} (h : w.Beside v) (hlook : fs.Overlooks r.target) :
    (fs.apply v r).1 = (fs.apply w r).1 ∧ (fs.apply w r).2.Beside (fs.apply v r).2 := by
  have hsame := hlook w.files w.slots v.slots r.mode.flags 0o666 h.slots
  unfold FileSystem.apply
  rw [h.files, hsame, h.opened]
  split
  · exact ⟨rfl, rfl, rfl, h.slots⟩
  · refine ⟨rfl, rfl, rfl, fun fd => ?_⟩
    dsimp only
    by_cases hfd : fd = r.stream.fd
    · rw [hfd, Function.update_self, Function.update_self]
      exact .inl rfl
    · rw [Function.update_of_ne hfd, Function.update_of_ne hfd]
      exact h.slots fd

theorem Scene.Beside.open {v : Scene σ ο} (h : w.Beside v) {stream : Stream}
    (hopen : w.slots stream.fd ≠ none) : v.slots stream.fd ≠ none := by
  obtain hsame | ⟨-, hfree⟩ := h.slots stream.fd
  · rwa [hsame]
  · exact absurd hfree hopen

/-- The shell comes to what the redirections should, but for its copies. -/
theorem ensures_redirectShell_scene {all : List (Opening ο)} {v : Scene σ ο} {saved : List SavedFd}
    (hbeside : w.Beside v) (hopen : ∀ stream : Stream, w.slots stream.fd ≠ none)
    (hlook : ∀ r ∈ rs, fs.Overlooks r.target) (hall : (fs.redirect w rs).2.opened <+: all) :
    Ensures (Scene.Step fs) (Opens all) v (redirectShell saved rs) fun w' r =>
      r.1 = (fs.redirect w rs).1 ∧ (fs.redirect w rs).2.Beside w' := by
  induction rs generalizing w v saved with
  | nil => exact ensures_done ⟨rfl, hbeside⟩
  | cons r rs ih =>
    simp only [List.mem_cons, forall_eq_or_imp] at hlook
    refine Ensures.bind (ensures_ask trivial fun copy v₁ hcopy => ?_)
    have hcopied : w.Beside v₁ := hbeside.copy hcopy
    obtain ⟨hresult, hafter⟩ := hcopied.apply hlook.1
    have hnext : (fs.apply v₁ r).2.opened <+: all :=
      hafter.opened ▸ (fs.opened_cons_prefix w r rs).trans hall
    refine Ensures.bind ((ensures_apply_scene (hcopied.open (hopen r.stream)) hnext).mono ?_)
    intro v₂ result h
    rw [← h] at hresult hafter
    cases happly : fs.apply w r with
    | mk given w₁ =>
      rw [happly] at hresult hafter
      obtain rfl : result = given := hresult
      simp only [FileSystem.redirect, happly] at hall ⊢
      cases result with
      | error e => exact ensures_done ⟨rfl, hafter⟩
      | ok value =>
        exact ih hafter (fun stream => FileSystem.open_apply (hopen stream) happly) hlook.2 hall

end

/-- The redirections with the files that their targets were opened as. -/
def openings (rs : List Redirection) (files : List ο) : List (Opening ο) :=
  List.zipWith (fun r file => r.opening (.ok file)) rs files

/-- What was opened last for a stream. -/
def lastFile (stream : Stream) (rs : List Redirection) (files : List ο) : Option ο :=
  (((rs.zip files).filter fun p => p.1.stream = stream).getLast?).map Prod.snd

/-- All targets were opened, and each stream is on what was opened last for it, if anything was. -/
structure Scene.Bound (w : Scene σ ο) (rs : List Redirection) (files : List ο) (w' : Scene σ ο) :
    Prop where
  count : files.length = rs.length
  opened : w'.opened = w.opened ++ openings rs files
  streams : ∀ stream : Stream,
    w'.slots stream.fd = (lastFile stream rs files).or (w.slots stream.fd)
  others : ∀ fd, 3 ≤ fd → w'.slots fd = w.slots fd

/-- The targets up to the first that cannot be opened were opened, and no others. -/
structure Scene.Halted (w : Scene σ ο) (rs : List Redirection) (e : SetupError) (w' : Scene σ ο)
    (before after : List Redirection) (r : Redirection) (files : List ο) (cause : Errno) :
    Prop where
  split : rs = before ++ r :: after
  count : files.length = before.length
  error : e = .redirect r.target cause
  opened : w'.opened = w.opened ++ openings before files ++ [r.opening (.error cause)]

theorem lastFile_cons (stream : Stream) (r : Redirection) (file : ο) (rs : List Redirection)
    (files : List ο) : lastFile stream (r :: rs) (file :: files) =
      (lastFile stream rs files).or (if r.stream = stream then some file else none) := by
  unfold lastFile
  rw [List.zip_cons_cons, List.filter_cons]
  by_cases h : r.stream = stream
  · simp only [h, decide_true, ↓reduceIte, List.getLast?_cons]
    cases ((rs.zip files).filter fun p => p.1.stream = stream).getLast? <;> rfl
  · simp [h]

section

variable {fs : FileSystem σ ο} {w w' : Scene σ ο} {rs : List Redirection} {e : SetupError}

theorem Scene.Bound.cons {r : Redirection} {file : ο} {files : List ο} {store : σ}
    (h : Scene.Bound ⟨store, Function.update w.slots r.stream.fd (some file),
      w.opened ++ [r.opening (.ok file)]⟩ rs files w') : w.Bound (r :: rs) (file :: files) w' := by
  refine ⟨by simp [h.count], ?_, ?_, ?_⟩
  · rw [h.opened, List.append_assoc]
    rfl
  · intro stream
    rw [h.streams, lastFile_cons, Option.or_assoc]
    dsimp only
    congr 1
    by_cases hr : r.stream = stream
    · subst hr
      rw [if_pos rfl, Function.update_self]
      rfl
    · have hne : stream.fd ≠ r.stream.fd := fun heq => hr (Stream.fd_injective heq).symm
      rw [if_neg hr, Function.update_of_ne hne]
      rfl
  · intro fd hfd
    have hne : fd ≠ r.stream.fd := by
      rintro rfl
      cases hs : r.stream <;> simp [hs, Stream.fd] at hfd
    rw [h.others fd hfd]
    exact Function.update_of_ne hne ..

theorem FileSystem.redirect_ok (h : fs.redirect w rs = (.ok (), w')) :
    ∃ files, w.Bound rs files w' := by
  induction rs generalizing w with
  | nil =>
    obtain ⟨-, rfl⟩ := Prod.mk.inj h
    exact ⟨[], rfl, by simp [openings], fun _ => rfl, fun _ _ => rfl⟩
  | cons r rs ih =>
    unfold FileSystem.redirect FileSystem.apply at h
    cases hopens : fs.opens w.files w.slots r.target r.mode.flags 0o666 with
    | mk given store =>
      cases given with
      | error cause => simp [hopens] at h
      | ok file =>
        simp only [hopens] at h
        obtain ⟨files, hbound⟩ := ih h
        exact ⟨file :: files, hbound.cons⟩

theorem FileSystem.redirect_error (h : fs.redirect w rs = (.error e, w')) :
    ∃ before after r files cause, w.Halted rs e w' before after r files cause := by
  induction rs generalizing w with
  | nil => cases h
  | cons r rs ih =>
    unfold FileSystem.redirect FileSystem.apply at h
    cases hopens : fs.opens w.files w.slots r.target r.mode.flags 0o666 with
    | mk given store =>
      cases given with
      | error cause =>
        simp only [hopens, Prod.mk.injEq, Except.error.injEq] at h
        obtain ⟨rfl, rfl⟩ := h
        exact ⟨[], rs, r, [], cause, rfl, rfl, rfl, by simp [openings]⟩
      | ok file =>
        simp only [hopens] at h
        obtain ⟨before, after, r', files, cause, rfl, hcount, rfl, hopened⟩ := ih h
        refine ⟨r :: before, after, r', file :: files, cause, rfl, by simp [hcount], rfl, ?_⟩
        rw [hopened]
        simp [openings]

theorem FileSystem.status_eq (h : (fs.redirect w rs).1 = .error e) : e.status = 1 := by
  have hfail : fs.redirect w rs = (.error e, (fs.redirect w rs).2) := Prod.ext h rfl
  obtain ⟨before, after, r, files, cause, halted⟩ := FileSystem.redirect_error hfail
  rw [halted.error]
  rfl

/-- There is room for more descriptors. -/
def Scene.Roomy (w : Scene σ ο) : Prop := ∀ least, ∃ fd, least ≤ fd ∧ w.slots fd = none

theorem Scene.Roomy.update (h : w.Roomy) (fd : Fd) (what : Option ο) :
    Scene.Roomy { w with slots := Function.update w.slots fd what } := by
  intro least
  obtain ⟨fd', hbound, hfree⟩ := h (max least (fd + 1))
  have hne : fd' ≠ fd := Nat.ne_of_gt (Nat.le_trans (Nat.le_max_right least (fd + 1)) hbound)
  exact ⟨fd', Nat.le_trans (Nat.le_max_left least (fd + 1)) hbound,
    (Function.update_of_ne hne ..).trans hfree⟩

/-- A call that is answered at once is not repeated. -/
theorem runs_retry_once {β : Type} {request : Call (Except Errno β)} {answer : Except Errno β}
    (h : answer ≠ .error .interrupted) : Runs (retry request) [.call request answer] answer :=
  runs_retry.mpr ⟨h, 0, rfl⟩

theorem exists_runs_opened (fs : FileSystem σ ο) {r : Redirection}
    {move : Fd → Program (Except SetupError Unit)} (hroomy : w.Roomy)
    (hopen : w.slots r.stream.fd ≠ none)
    (hmove : ∀ (w₁ : Scene σ ο) fd file, w₁.slots fd = some file →
      ∃ t, Runs (move fd) t (.ok ()) ∧
        Leads (Scene.Step fs) w₁ t (w₁.moved fd r.stream.fd file)) :
    (fs.apply w r).2.Roomy ∧ ∃ t,
      Runs ((retry (.openFile r.target r.mode.flags 0o666)).bind fun
        | .error e => done (.error (.redirect r.target e))
        | .ok fd => if fd = r.stream.fd then done (.ok ()) else move fd) t (fs.apply w r).1 ∧
      Leads (Scene.Step fs) w t (fs.apply w r).2 := by
  have hsettles := fs.settles w.files w.slots r.target r.mode.flags 0o666
  unfold FileSystem.apply
  cases h : fs.opens w.files w.slots r.target r.mode.flags 0o666 with
  | mk given files =>
    rw [h] at hsettles
    cases given with
    | error e =>
      refine ⟨hroomy, [.call (.openFile r.target r.mode.flags 0o666) (.error e)], ?_, ?_⟩
      · have hanswer : (Except.error e : Except Errno Fd) ≠ .error .interrupted := by
          simpa using hsettles
        exact runs_bind.mpr ⟨_, [], _, rfl, runs_retry_once hanswer, .refl _⟩
      · exact .cons (.inr ⟨files, h, rfl⟩) .nil
    | ok file =>
      obtain ⟨fd, -, hfree⟩ := hroomy 0
      have hfd : fd ≠ r.stream.fd := by
        rintro rfl
        exact hopen hfree
      obtain ⟨t, hrun, hl⟩ := hmove { w with
        files
        slots := Function.update w.slots fd (some file)
        opened := w.opened ++ [r.opening (.ok file)] } fd file (Function.update_self ..)
      simp only [Scene.moved, update_moved hfree hfd] at hl
      refine ⟨hroomy.update r.stream.fd (some file),
        .call (.openFile r.target r.mode.flags 0o666) (.ok fd) :: t, ?_, ?_⟩
      · refine runs_bind.mpr ⟨[_], t, .ok fd, rfl, runs_retry_once nofun, ?_⟩
        dsimp only
        rwa [if_neg hfd]
      · exact .cons (And.intro hfree ⟨file, files, h, rfl⟩) hl

/-- What is copied and then closed has been moved. -/
theorem leads_moved {fd target : Fd} {file : ο} (h : w.slots fd = some file) :
    Leads (Scene.Step fs) w
      [.call (.duplicate fd target) (.ok ()), .call (.close fd) (.ok ())]
      (w.moved fd target file) :=
  .cons (Exists.intro file ⟨h, rfl⟩) (leads_cons.mpr ⟨_, rfl, leads_nil.mpr rfl⟩)

theorem exists_runs_apply (fs : FileSystem σ ο) {r : Redirection} (hroomy : w.Roomy)
    (hopen : w.slots r.stream.fd ≠ none) : (fs.apply w r).2.Roomy ∧
      ∃ t, Runs r.apply t (fs.apply w r).1 ∧ Leads (Scene.Step fs) w t (fs.apply w r).2 := by
  refine exists_runs_opened fs hroomy hopen fun w₁ fd file hfile => ⟨_, ?_, leads_moved hfile⟩
  refine runs_bind.mpr ⟨[_], _, .ok (), rfl, runs_retry_once nofun, ?_⟩
  exact .call (Except.ok ()) (.refl _)

theorem exists_runs_applyInStage (fs : FileSystem σ ο) {r : Redirection} (hroomy : w.Roomy)
    (hopen : w.slots r.stream.fd ≠ none) : (fs.apply w r).2.Roomy ∧
      ∃ t, Runs r.applyInStage t (fs.apply w r).1 ∧
        Leads (Scene.Step fs) w t (fs.apply w r).2 := by
  refine exists_runs_opened fs hroomy hopen fun w₁ fd file hfile => ⟨_, ?_, leads_moved hfile⟩
  refine runs_bind.mpr ⟨[_], _, .ok (), rfl, runs_retry_once nofun, ?_⟩
  exact .call (Except.ok ()) (.refl _)

/-- A new process gets through its redirections. -/
theorem exists_runs_applyRedirections (fs : FileSystem σ ο) (rs : List Redirection)
    (hroomy : w.Roomy) (hopen : ∀ stream : Stream, w.slots stream.fd ≠ none) :
    ∃ t, Runs (applyRedirections rs) t (fs.redirect w rs).1 ∧
      Leads (Scene.Step fs) w t (fs.redirect w rs).2 := by
  induction rs generalizing w with
  | nil => exact ⟨[], .refl _, .nil⟩
  | cons r rs ih =>
    obtain ⟨hroomy', t, hrun, hleads⟩ := exists_runs_applyInStage fs hroomy (hopen r.stream)
    unfold FileSystem.redirect
    cases happly : fs.apply w r with
    | mk result w₁ =>
      rw [happly] at hroomy' hrun hleads
      cases result with
      | error e =>
        exact ⟨t, runs_bind.mpr ⟨t, [], _, (List.append_nil t).symm, hrun, .refl _⟩, hleads⟩
      | ok value =>
        obtain ⟨u, hrest, hthen⟩ :=
          ih hroomy' fun stream => FileSystem.open_apply (hopen stream) happly
        exact ⟨t ++ u, runs_bind.mpr ⟨t, u, _, rfl, hrun, hrest⟩,
          leads_append.mpr ⟨w₁, hleads, hthen⟩⟩

/-- Copies were made of all that was replaced, each on a descriptor of its own, and are there. -/
structure Scene.Kept (v : Scene σ ο) (saved : List SavedFd) : Prop where
  apart : saved.Pairwise fun s s' => s.2 ≠ s'.2
  present : ∀ s ∈ saved, ∃ copy file, s.2 = some copy ∧ v.slots copy = some file

theorem Scene.Kept.nil (v : Scene σ ο) : v.Kept [] := ⟨.nil, nofun⟩

/-- Another copy goes to a free descriptor. -/
theorem Scene.Kept.copy {v : Scene σ ο} {saved : List SavedFd} {copy : Fd} (fd : Fd) (file : ο)
    (h : v.Kept saved) (hfree : v.slots copy = none) :
    Scene.Kept { v with slots := Function.update v.slots copy (some file) }
      ((fd, some copy) :: saved) := by
  have hother (s : SavedFd) (hs : s ∈ saved) : some copy ≠ s.2 := by
    obtain ⟨copy', file', heq, hthere⟩ := h.present s hs
    rw [heq]
    rintro ⟨⟩
    rw [hfree] at hthere
    cases hthere
  refine ⟨.cons hother h.apart, ?_⟩
  simp only [List.mem_cons, forall_eq_or_imp]
  refine ⟨⟨copy, file, rfl, Function.update_self ..⟩, fun s hs => ?_⟩
  obtain ⟨copy', file', heq, hthere⟩ := h.present s hs
  have hne : copy' ≠ copy := by
    rintro rfl
    exact hother s hs heq.symm
  exact ⟨copy', file', heq, (Function.update_of_ne hne ..).trans hthere⟩

/-- Putting something on a descriptor takes no copy away. -/
theorem Scene.Kept.put {v v' : Scene σ ο} {saved : List SavedFd} {fd : Fd} {file : ο}
    (h : v.Kept saved) (hslots : v'.slots = Function.update v.slots fd (some file)) :
    v'.Kept saved := by
  refine ⟨h.apart, fun s hs => ?_⟩
  obtain ⟨copy, file', heq, hthere⟩ := h.present s hs
  by_cases hfd : copy = fd
  · exact ⟨copy, file, heq, by rw [hslots, hfd, Function.update_self]⟩
  · exact ⟨copy, file', heq, by rw [hslots, Function.update_of_ne hfd, hthere]⟩

theorem Scene.Kept.apply {v : Scene σ ο} {saved : List SavedFd} (h : v.Kept saved)
    (r : Redirection) : (fs.apply v r).2.Kept saved := by
  unfold FileSystem.apply
  split
  · exact ⟨h.apart, h.present⟩
  · exact h.put rfl

/-- Taking the first copy to its descriptor leaves the others. -/
theorem Scene.Kept.moved {v : Scene σ ο} {saved : List SavedFd} {fd copy : Fd} (file : ο)
    (h : v.Kept ((fd, some copy) :: saved)) : (v.moved copy fd file).Kept saved := by
  obtain ⟨hfirst, hrest⟩ := List.pairwise_cons.mp h.apart
  refine ⟨hrest, fun s hs => ?_⟩
  obtain ⟨copy', file', heq, hthere⟩ := h.present s (List.mem_cons_of_mem _ hs)
  have hne : copy' ≠ copy := by
    rintro rfl
    exact hfirst s hs heq.symm
  by_cases hfd : copy' = fd
  · exact ⟨copy', file, heq, by simp [Scene.moved, hfd ▸ hne, hfd]⟩
  · exact ⟨copy', file', heq, by simp [Scene.moved, hne, hfd, hthere]⟩

/-- What was replaced can be put back. -/
theorem exists_runs_restoreShell (fs : FileSystem σ ο) {v : Scene σ ο} {saved : List SavedFd}
    (h : v.Kept saved) : ∃ t v', Runs (restoreShell saved) t () ∧ Leads (Scene.Step fs) v t v' := by
  induction saved generalizing v with
  | nil => exact ⟨[], v, .refl _, .nil⟩
  | cons s saved ih =>
    obtain ⟨copy, file, heq, hthere⟩ := h.present s List.mem_cons_self
    obtain ⟨fd, _⟩ := s
    cases heq
    obtain ⟨t, v', hrun, hl⟩ := ih (h.moved file)
    refine ⟨[.call (.duplicate copy fd) (.ok ()), .call (.close copy) (.ok ())] ++ t, v', ?_,
      leads_append.mpr ⟨_, leads_moved hthere, hl⟩⟩
    refine runs_bind.mpr ⟨[_], _, .ok (), rfl, runs_retry_once nofun, ?_⟩
    exact .call (Except.ok ()) hrun

/-- The shell gets through its redirections as well, with a copy of every descriptor that it
replaces. -/
theorem exists_runs_redirectShell {v : Scene σ ο} {saved : List SavedFd} (hbeside : w.Beside v)
    (hroomy : v.Roomy) (hkept : v.Kept saved) (hopen : ∀ stream : Stream, w.slots stream.fd ≠ none)
    (hlook : ∀ r ∈ rs, fs.Overlooks r.target) :
    ∃ t saved' v', Runs (redirectShell saved rs) t ((fs.redirect w rs).1, saved') ∧
      Leads (Scene.Step fs) v t v' ∧ v'.Kept saved' := by
  induction rs generalizing w v saved with
  | nil => exact ⟨[], saved, v, .refl _, .nil, hkept⟩
  | cons r rs ih =>
    simp only [List.mem_cons, forall_eq_or_imp] at hlook
    obtain ⟨file, hfile⟩ := Option.ne_none_iff_exists'.mp (hbeside.open (hopen r.stream))
    obtain ⟨copy, hbound, hfree⟩ := hroomy firstSavedFd
    have hstep : v.Step fs (.call (.duplicateFrom r.stream.fd firstSavedFd) (.ok copy))
        { v with slots := Function.update v.slots copy (some file) } :=
      And.intro hbound ⟨hfree, file, hfile, rfl⟩
    have hcopied := hbeside.copy hstep
    have hkept' : (fs.apply _ r).2.Kept ((r.stream.fd, some copy) :: saved) :=
      Scene.Kept.apply (.copy r.stream.fd file hkept hfree) r
    obtain ⟨hresult, hafter⟩ := hcopied.apply hlook.1
    obtain ⟨hroomy', t, hrun, hleads⟩ := exists_runs_apply fs (hroomy.update copy (some file))
      (hcopied.open (hopen r.stream))
    rw [hresult] at hrun
    unfold FileSystem.redirect
    cases happly : fs.apply w r with
    | mk result w₁ =>
      rw [happly] at hrun hafter
      cases result with
      | error e =>
        refine ⟨_ :: t, (r.stream.fd, some copy) :: saved, _, ?_, .cons hstep hleads, hkept'⟩
        refine runs_bind.mpr ⟨[_], t, .ok copy, rfl, runs_ask.mpr rfl, ?_⟩
        exact runs_bind.mpr ⟨t, [], _, (List.append_nil t).symm, hrun, .refl _⟩
      | ok value =>
        obtain ⟨u, saved', v', hrest, hthen, hlast⟩ := ih hafter hroomy' hkept'
          (fun stream => FileSystem.open_apply (hopen stream) happly) hlook.2
        refine ⟨_ :: (t ++ u), saved', v', ?_, .cons hstep (leads_append.mpr ⟨_, hleads, hthen⟩),
          hlast⟩
        refine runs_bind.mpr ⟨[_], t ++ u, .ok copy, rfl, runs_ask.mpr rfl, ?_⟩
        exact runs_bind.mpr ⟨t, u, _, rfl, hrun, hrest⟩

/-- What becomes of a built-in in the shell whose redirections fail with `e`: it is not run, but
the shell puts its descriptors back, says why, and goes on with the status 1. -/
structure Stage.RefusedInShell (fs : FileSystem σ ο) (w : Scene σ ο) (stage : Stage)
    (ctx : Context) (e : SetupError) : Prop where
  halts : ∀ t applied saved w', Runs (redirectShell [] stage.redirections) t (applied, saved) →
    Leads (Scene.Step fs) w t w' → applied = .error e ∧ Steps (runInShell stage ctx) t
      ((restoreShell saved).bind fun _ =>
        (complain e.message).bind fun _ => done (.ok (.status 1), ctx))
  ends : ∀ t result w', Runs (runInShell stage ctx) t result → Leads (Scene.Step fs) w t w' →
    result = (.ok (.status 1), ctx)
  endsIndeed : w.Roomy →
    ∃ t w', Runs (runInShell stage ctx) t (.ok (.status 1), ctx) ∧ Leads (Scene.Step fs) w t w'
  keepsRunning : KeepsRunning (runInShell stage ctx)

/-- What becomes of the process of a stage whose redirections fail with `e`: it becomes no program
and runs no built-in, but says why, once, and exits with the status 1. -/
def Stage.RefusedInStage (fs : FileSystem σ ο) (w : Scene σ ο) (stage : Stage) (ctx : Context)
    (e : SetupError) : Prop :=
  ∀ i pipes group t₀ t result w',
    Steps (setUpStage i stage pipes group) t₀ (applyRedirections stage.redirections) →
    Runs (applyRedirections stage.redirections) t result → Leads (Scene.Step fs) w t w' →
    result = .error e ∧ Steps (stageProcess i stage pipes group ctx) (t₀ ++ t)
      ((writeText 2 (complaint e.message)).bind fun _ => Program.exit 1)

theorem refusedInShell {stage : Stage} {ctx : Context}
    (hopen : ∀ stream : Stream, w.slots stream.fd ≠ none)
    (hlook : ∀ r ∈ stage.redirections, fs.Overlooks r.target) (hnul : nulWord? [stage] = none)
    (hfail : (fs.redirect w stage.redirections).1 = .error e) :
    stage.RefusedInShell fs w ctx e := by
  have happlied {t : List Event} {applied : Except SetupError Unit} {saved : List SavedFd}
      {w' : Scene σ ο} (hr : Runs (redirectShell [] stage.redirections) t (applied, saved))
      (hl : Leads (Scene.Step fs) w t w') : applied = .error e :=
    ((ensures_redirectShell_scene (.refl w) hopen hlook (List.prefix_refl _)).ends hr hl).1.trans
      hfail
  have hthere {t : List Event} {saved : List SavedFd}
      (hr : Runs (redirectShell [] stage.redirections) t (.error e, saved)) :
      Steps (runInShell stage ctx) t ((restoreShell saved).bind fun _ =>
        (complain e.message).bind fun _ => done (.ok (.status 1), ctx)) := by
    rw [← FileSystem.status_eq hfail]
    exact steps_runInShell_unopened hnul hr ctx
  refine ⟨?_, ?_, ?_, (within_runInShell ctx stage).keepsRunning⟩
  · intro t applied saved w' hr hl
    obtain rfl := happlied hr hl
    exact ⟨rfl, hthere hr⟩
  · rintro t ⟨result, ctx'⟩ w' hrun hl
    cases runs_runInShell hrun with
    | refused hword => simp [hnul] at hword
    | unopened _ hr _ _ =>
      obtain ⟨w₁, hl₁, -⟩ := leads_append.mp hl
      obtain rfl := Except.error.inj (happlied hr hl₁)
      rw [FileSystem.status_eq hfail]
    | ran _ hr _ _ =>
      obtain ⟨w₁, hl₁, -⟩ := leads_append.mp hl
      cases happlied hr hl₁
  · intro hroomy
    obtain ⟨t, saved, w₁, hr, hl₁, hkept⟩ :=
      exists_runs_redirectShell (.refl w) hroomy (.nil w) hopen hlook
    obtain ⟨u, w₂, hrestored, hl₂⟩ := exists_runs_restoreShell fs hkept
    rw [hfail] at hr
    have hsaid := runs_printText_written 2 (complaint e.message)
    refine ⟨t ++ (u ++ written 2 (complaint e.message).toUTF8), w₂, (hthere hr).trans ?_,
      leads_append.mpr ⟨w₁, hl₁, leads_append.mpr ⟨w₂, hl₂, leads_of_same fun e he => ?_⟩⟩⟩
    · exact runs_bind.mpr ⟨u, _, (), rfl, hrestored,
        runs_bind.mpr ⟨_, [], (), (List.append_nil _).symm, hsaid, .refl _⟩⟩
    · obtain ⟨data, answer, rfl⟩ := writes_of_printText hsaid e he
      exact ⟨w₂.files, rfl⟩

theorem refusedInStage {stage : Stage} {ctx : Context}
    (hopen : ∀ stream : Stream, w.slots stream.fd ≠ none)
    (hfail : (fs.redirect w stage.redirections).1 = .error e) :
    stage.RefusedInStage fs w ctx e := by
  intro i pipes group t₀ t result w' hthere hr hl
  have hend := (ensures_applyRedirections_scene hopen (List.prefix_refl _)).ends hr hl
  obtain rfl : result = .error e := (congrArg Prod.fst hend).trans hfail
  refine ⟨rfl, ?_⟩
  rw [← FileSystem.status_eq hfail]
  exact (hthere.trans hr).bind _

/-- Redirections act the same in the shell and in a new process, as long as opening their targets
does not depend on the shell's copies, and what they come to is this: the targets are opened in
order, with the flags of their redirections, up to the first that cannot be opened. If there is
none, each stream is on what was opened last for it, or on what it was on before. If there is one,
neither the built-in nor the program is run, and the status is 1. Only where the system refuses to
move an open file to its stream do the two act differently: the shell closes it. -/
theorem redirections_agree (fs : FileSystem σ ο) (rs : List Redirection) (w : Scene σ ο)
    (hopen : ∀ stream : Stream, w.slots stream.fd ≠ none)
    (hlook : ∀ r ∈ rs, fs.Overlooks r.target) :
    let should := fs.redirect w rs
    Ensures (Scene.Step fs) (Opens should.2.opened) w (applyRedirections rs)
      (fun w' result => result = should.1 ∧ w' = should.2) ∧
    Ensures (Scene.Step fs) (Opens should.2.opened) w (redirectShell [] rs)
      (fun w' r => r.1 = should.1 ∧ should.2.Beside w') ∧
    (w.Roomy → (∃ t w', Runs (applyRedirections rs) t should.1 ∧ Leads (Scene.Step fs) w t w') ∧
      ∃ t saved w', Runs (redirectShell [] rs) t (should.1, saved) ∧
        Leads (Scene.Step fs) w t w') ∧
    (should.1 = .ok () → ∃ files, w.Bound rs files should.2) ∧
    (∀ e, should.1 = .error e →
      (∃ before after r files cause, w.Halted rs e should.2 before after r files cause) ∧
      ∀ stage ctx, stage.redirections = rs →
        (nulWord? [stage] = none → stage.RefusedInShell fs w ctx e) ∧
        stage.RefusedInStage fs w ctx e) ∧
    ∀ (r : Redirection) t result, Runs r.apply t result ↔
      ¬ Unmoved result ∧ Runs r.applyInStage t result ∨
      Unmoved result ∧ ∃ u v fd answer, Runs r.applyInStage (u ++ v) result ∧
        Runs (retry (.openFile r.target r.mode.flags 0o666)) u (.ok fd) ∧
        t = u ++ v ++ [.call (.close fd) answer] := by
  intro should
  refine ⟨?_, ensures_redirectShell_scene (.refl w) hopen hlook (List.prefix_refl _), ?_, ?_, ?_,
    fun r _ _ => r.runs_apply_iff⟩
  · refine (ensures_applyRedirections_scene hopen (List.prefix_refl _)).mono fun w' result h => ?_
    exact ⟨congrArg Prod.fst h, congrArg Prod.snd h⟩
  · intro hroomy
    obtain ⟨t, hrun, hleads⟩ := exists_runs_applyRedirections fs rs hroomy hopen
    obtain ⟨u, saved, w', hrun', hleads', -⟩ :=
      exists_runs_redirectShell (.refl w) hroomy (.nil w) hopen hlook
    exact ⟨⟨t, _, hrun, hleads⟩, u, saved, w', hrun', hleads'⟩
  · intro hok
    exact FileSystem.redirect_ok (Prod.ext hok rfl)
  · intro e hfail
    refine ⟨FileSystem.redirect_error (Prod.ext hfail rfl), ?_⟩
    rintro stage ctx rfl
    exact ⟨fun hnul => refusedInShell hopen hlook hnul hfail, refusedInStage hopen hfail⟩

end

/-- Files are their paths. There is no directory `d`, and every other path can be opened. -/
def flatFiles : FileSystem (List String) String where
  opens files _ path _ _ :=
    if path = "d/x" then (.error .noEntry, files) else (.ok path, path :: files)
  settles files _ path _ _ := by split <;> simp [Errno.noEntry, Errno.interrupted]

/-- The standard streams are on the terminal, and nothing else is open. -/
def onTerminal : Scene (List String) String where
  files := []
  slots fd := if fd < 3 then some "tty" else none

/-- Output goes to a second file after a first one was made, the third target cannot be opened,
and the fourth is not made any more. -/
theorem redirections_agree_third_missing :
    let rs : List Redirection := [⟨.stdout, .truncate, "a"⟩, ⟨.stdout, .append, "b"⟩,
      ⟨.stdin, .read, "d/x"⟩, ⟨.stderr, .truncate, "c"⟩]
    (∀ stream : Stream, onTerminal.slots stream.fd ≠ none) ∧
      (∀ r ∈ rs, flatFiles.Overlooks r.target) ∧
      (flatFiles.redirect onTerminal rs).2.files = ["b", "a"] ∧
      ∃ t w', Runs (applyRedirections rs) t (.error (.redirect "d/x" .noEntry)) ∧
        Leads (Scene.Step flatFiles) onTerminal t w' ∧
        w' = (flatFiles.redirect onTerminal rs).2 := by
  intro rs
  have hopen : ∀ stream : Stream, onTerminal.slots stream.fd ≠ none := by
    intro stream
    cases stream <;> decide
  have hlook : ∀ r ∈ rs, flatFiles.Overlooks r.target := fun _ _ _ _ _ _ _ _ => rfl
  have hroomy : onTerminal.Roomy := fun least => ⟨least + 3, Nat.le_add_right .., by
    simp [onTerminal]⟩
  obtain ⟨hchild, -, hruns, -⟩ := redirections_agree flatFiles rs onTerminal hopen hlook
  obtain ⟨⟨t, w', hrun, hl⟩, -⟩ := hruns hroomy
  exact ⟨hopen, hlook, rfl, t, w', hrun, hl, (hchild.ends hrun hl).2⟩

/-- A path that names descriptor 10, next to ordinary ones. -/
def descriptorFiles : FileSystem Unit Unit where
  opens _ slots path _ _ :=
    if path = "/proc/self/fd/10" then
      ((slots 10).elim (.error .noEntry) .ok, ())
    else (.ok (), ())
  settles _ slots path _ _ := by
    split
    · cases slots 10 <;> simp [Errno.noEntry, Errno.interrupted]
    · simp

/-- Where the shell keeps its first copy on descriptor 10, it can open a path that names this
descriptor, and a new process cannot. -/
theorem not_always_agree :
    ¬ ∀ (σ ο : Type) (fs : FileSystem σ ο) (rs : List Redirection) (w w₁ w₂ : Scene σ ο)
      (t u : List Event) (result result' : Except SetupError Unit) (saved : List SavedFd),
      (∀ stream : Stream, w.slots stream.fd ≠ none) →
      Runs (applyRedirections rs) t result → Leads (Scene.Step fs) w t w₁ →
      Runs (redirectShell [] rs) u (result', saved) → Leads (Scene.Step fs) w u w₂ →
      result' = result := by
  intro hall
  let w : Scene Unit Unit := { files := (), slots := fun fd => if fd < 3 then some () else none }
  let rs : List Redirection :=
    [⟨.stdin, .read, "/dev/null"⟩, ⟨.stdin, .read, "/proc/self/fd/10"⟩]
  have hopen : ∀ stream : Stream, w.slots stream.fd ≠ none := by
    intro stream
    cases stream <;> decide
  have hchild : ∃ t w', Runs (applyRedirections rs) t
      (.error (.redirect "/proc/self/fd/10" .noEntry)) ∧
      Leads (Scene.Step descriptorFiles) w t w' := by
    have hroomy : w.Roomy := fun least => ⟨least + 3, Nat.le_add_right .., by simp [w]⟩
    obtain ⟨t, hrun, hl⟩ :=
      exists_runs_applyRedirections descriptorFiles rs hroomy hopen
    exact ⟨t, _, hrun, hl⟩
  have hshell : ∃ u saved w', Runs (redirectShell [] rs) u (.ok (), saved) ∧
      Leads (Scene.Step descriptorFiles) w u w' := by
    refine ⟨[.call (.duplicateFrom 0 10) (.ok 10),
      .call (.openFile "/dev/null" Mode.read.flags 0o666) (.ok 3), .call (.duplicate 3 0) (.ok ()),
      .call (.close 3) (.ok ()), .call (.duplicateFrom 0 10) (.ok 11),
      .call (.openFile "/proc/self/fd/10" Mode.read.flags 0o666) (.ok 3),
      .call (.duplicate 3 0) (.ok ()), .call (.close 3) (.ok ())],
      [(0, some 11), (0, some 10)], ?_⟩
    refine exists_and_left.mpr ⟨?_, ?_⟩
    · refine .call (Except.ok 10) (.loop (.call (Except.ok 3) (.loop (.call (Except.ok ()) ?_))))
      refine .call (Except.ok ()) (.call (Except.ok 11) (.loop (.call (Except.ok 3) ?_)))
      exact .loop (.call (Except.ok ()) (.call (Except.ok ()) (.refl _)))
    · exact ⟨_, .cons (And.intro (by decide) ⟨rfl, (), rfl, rfl⟩) <|
        .cons (And.intro rfl ⟨(), (), rfl, rfl⟩) <| .cons ⟨(), rfl, rfl⟩ <| .cons rfl <|
        .cons (And.intro (by decide) ⟨rfl, (), rfl, rfl⟩) <|
        .cons (And.intro rfl ⟨(), (), rfl, rfl⟩) <| .cons ⟨(), rfl, rfl⟩ <| .cons rfl .nil⟩
  obtain ⟨t, w₁, hrun, hl⟩ := hchild
  obtain ⟨u, saved, w₂, hrun', hl'⟩ := hshell
  cases hall _ _ _ _ _ _ _ _ _ _ _ _ hopen hrun hl hrun' hl'

end JobShell
