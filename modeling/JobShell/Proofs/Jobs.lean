import Mathlib.Data.List.Nodup
import JobShell.JobTable

/-!
The job table as a collection of processes. A new job takes an id that no other job has, so that
adding a job adds its processes and takes none away. Deleting the finished jobs one after another
splits the table: they have no processes to take away.
-/
namespace JobShell

namespace Numbered

variable {α : Type} {t : Numbered α} {n m : Nat} {a : α}

theorem firstGap_not_mem (lowest : Nat) {ns : List Nat} (h : ns.Pairwise (· < ·)) :
    firstGap lowest ns ∉ ns := by
  induction ns generalizing lowest with
  | nil => simp
  | cons n ns ih =>
    obtain ⟨hn, hns⟩ := List.pairwise_cons.mp h
    unfold firstGap
    split
    · -- the gap lies above `lowest`, and `n` below it
      have hle := le_firstGap lowest ns
      simp only [List.mem_cons, not_or]
      exact ⟨by omega, ih lowest hns⟩
    · split
      · have hle := le_firstGap (lowest + 1) ns
        simp only [List.mem_cons, not_or]
        exact ⟨by omega, ih (lowest + 1) hns⟩
      · intro hmem
        obtain rfl | hmem := List.mem_cons.mp hmem
        · contradiction
        · have hlt := hn lowest hmem
          omega

theorem firstFree_not_mem (h : t.Ordered) (lowest : Nat) :
    t.firstFree lowest ∉ t.numbers := firstGap_not_mem lowest h

theorem putEntry_perm (a : α) {entries : List (Nat × α)}
    (h : n ∉ entries.map Prod.fst) : (putEntry n a entries).Perm ((n, a) :: entries) := by
  induction entries with
  | nil => exact List.Perm.refl _
  | cons entry entries ih =>
    simp only [List.map_cons, List.mem_cons, not_or] at h
    unfold putEntry
    split
    · exact List.Perm.refl _
    · rw [if_neg h.1]
      exact ((ih h.2).cons entry).trans (List.Perm.swap _ _ _)

theorem get?_eq_none_iff : t.get? n = none ↔ n ∉ t.numbers := by
  rw [get?, List.lookup_eq_none_iff, numbers, List.mem_map]
  constructor
  · rintro h ⟨entry, hentry, rfl⟩
    simpa using h entry hentry
  · intro h entry hentry
    simp only [bne_iff_ne, ne_eq]
    rintro rfl
    exact h ⟨entry, hentry, rfl⟩

theorem lookup_cons_eq_ite (entry : Nat × α) (entries : List (Nat × α)) (m : Nat) :
    (entry :: entries).lookup m = if m = entry.1 then some entry.2 else entries.lookup m := by
  obtain ⟨n, a⟩ := entry
  rw [List.lookup_cons]
  by_cases hm : m = n
  · simp [hm]
  · have hne : (m == n) = false := by simpa using hm
    simp [hne, hm]

theorem get?_eq_some_iff (h : t.Ordered) : t.get? n = some a ↔ (n, a) ∈ t.entries := by
  obtain ⟨entries⟩ := t
  unfold get?
  induction entries with
  | nil => simp
  | cons entry entries ih =>
    obtain ⟨k, b⟩ := entry
    obtain ⟨hk, hentries⟩ := List.pairwise_cons.mp h
    rw [lookup_cons_eq_ite, List.mem_cons]
    by_cases hn : n = k
    · -- no later entry has the number of the first
      subst hn
      have hlater : (n, a) ∉ entries := by
        intro hmem
        exact Nat.lt_irrefl n (hk n (List.mem_map_of_mem hmem))
      simp [hlater, eq_comm]
    · simpa [hn] using ih hentries

theorem get?_put : (t.put n a).get? m = if m = n then some a else t.get? m := by
  obtain ⟨entries⟩ := t
  simp only [get?, put]
  induction entries with
  | nil => simp [putEntry, lookup_cons_eq_ite]
  | cons entry entries ih =>
    unfold putEntry
    split
    · rw [lookup_cons_eq_ite]
    · split
      · rename_i hk
        rw [lookup_cons_eq_ite, lookup_cons_eq_ite]
        by_cases hm : m = n
        · simp [hm]
        · simp [hm, ← hk]
      · rename_i hk
        rw [lookup_cons_eq_ite, lookup_cons_eq_ite, ih]
        by_cases hm : m = n
        · simp [hm, hk]
        · simp [hm]

theorem get?_erase : (t.erase n).get? m = if m = n then none else t.get? m := by
  obtain ⟨entries⟩ := t
  simp only [get?, erase]
  induction entries with
  | nil => simp
  | cons entry entries ih =>
    rw [List.filter_cons, lookup_cons_eq_ite entry]
    by_cases hk : entry.1 = n
    · rw [if_neg (by simpa using hk), ih, hk]
      by_cases hm : m = n <;> simp [hm]
    · rw [if_pos (by simpa using hk), lookup_cons_eq_ite, ih]
      by_cases hm : m = n
      · simp [hm, Ne.symm hk]
      · simp [hm]

end Numbered

/-- The processes that jobs list. -/
def pidsOf (jobs : List Job) : List Pid := jobs.flatMap Job.pids

/-- Jobs without processes add none. -/
theorem pidsOf_filter_nonempty (jobs : List Job) :
    pidsOf (jobs.filter fun job => !job.pids.isEmpty) = pidsOf jobs := by
  unfold pidsOf
  induction jobs with
  | nil => rfl
  | cons job jobs ih => cases hp : job.pids <;> simp [hp, ih]

namespace JobTable

def listed (t : JobTable) : List Pid := pidsOf t.values

/-- The jobs, whatever processes are left of them. -/
def tags (jobs : List Job) : List Job := jobs.map fun job => { job with pids := [] }

theorem tags_append (jobs jobs' : List Job) : tags (jobs ++ jobs') = tags jobs ++ tags jobs' :=
  List.map_append

theorem tags_perm {jobs jobs' : List Job} (h : jobs.Perm jobs') : (tags jobs).Perm (tags jobs') :=
  h.map _

variable {t t' : JobTable} {job : Job} {id : Nat}

theorem entries_eq (t : JobTable) : t.entries = t.values.map fun job => (job.id, job) := by
  rw [Numbered.values, List.map_map]
  refine (List.map_id _).symm.trans (List.map_congr_left fun entry hentry => ?_)
  exact Prod.ext (t.filed entry hentry).symm rfl

/-- A table is known by its jobs. -/
theorem eq_of_values (h : t.values = t'.values) : t = t' := by
  ext1
  rw [entries_eq, entries_eq, h]

@[simp] theorem values_ofJobs (jobs : List Job) (h : (jobs.map Job.id).Pairwise (· < ·)) :
    (ofJobs jobs h).values = jobs := by
  rw [Numbered.values, ofJobs, List.map_map]
  exact List.map_id jobs

@[simp] theorem values_retain (t : JobTable) (left : List (List Pid)) :
    (t.retain left).values = keepPids t.values left := values_ofJobs _ _

theorem tags_keepPids (jobs : List Job) (left : List (List Pid)) :
    tags (keepPids jobs left) = tags jobs := by
  fun_induction keepPids jobs left with
  | case1 job jobs pids left ih => exact congrArg ({ job with pids := [] } :: ·) ih
  | case2 => rfl

theorem pidsOf_keepPids {jobs : List Job} {left : List (List Pid)}
    (h : left.length = jobs.length) : pidsOf (keepPids jobs left) = left.flatten := by
  fun_induction keepPids jobs left with
  | case1 job jobs pids left ih => exact congrArg (pids ++ ·) (ih (Nat.succ.inj h))
  | case2 jobs left hnone =>
    cases jobs with
    | nil => rw [List.length_eq_zero_iff.mp h, pidsOf, List.flatMap_nil, List.flatten_nil]
    | cons job jobs =>
      cases left with
      | nil => cases h
      | cons pids left => exact absurd rfl (hnone job jobs pids left rfl)

theorem get?_eq_some_iff : t.get? id = some job ↔ job ∈ t.values ∧ job.id = id := by
  rw [Numbered.get?_eq_some_iff t.increasing, entries_eq, List.mem_map]
  constructor
  · rintro ⟨job', hjob, heq⟩
    obtain ⟨rfl, rfl⟩ := Prod.mk.inj heq
    exact ⟨hjob, rfl⟩
  · rintro ⟨hjob, rfl⟩
    exact ⟨job, hjob, rfl⟩

/-- A job under the free id joins the others. -/
theorem insert_perm (h : job.id = t.freeId) : (t.insert job).values.Perm (job :: t.values) := by
  have hfree : job.id ∉ t.numbers := h ▸ Numbered.firstFree_not_mem t.increasing 1
  exact (Numbered.putEntry_perm job hfree).map Prod.snd

theorem listed_insert (h : job.id = t.freeId) :
    (t.insert job).listed.Perm (job.pids ++ t.listed) :=
  (insert_perm h).flatMap_right Job.pids

theorem values_remove (t : JobTable) (id : Nat) :
    (t.remove id).values = t.values.filter fun job => job.id != id := by
  change (t.entries.filter fun entry => entry.1 != id).map Prod.snd = _
  rw [entries_eq, List.filter_map, List.map_map]
  exact List.map_id _

/-- Deleting one job after another leaves the other jobs. -/
theorem values_deleteEach (t : JobTable) (ids : List Nat) :
    (t.deleteEach ids).2.values = t.values.filter fun job => !ids.contains job.id := by
  induction ids generalizing t with
  | nil => exact (List.filter_eq_self.mpr fun job _ => rfl).symm
  | cons id ids ih =>
    simp only [deleteEach, delete, ih, values_remove, List.filter_filter, List.contains_cons,
      Bool.not_or, bne, Bool.and_comm]

/-- What is returned was in the table before the first deletion. -/
theorem deleteEach_fst (t : JobTable) {ids : List Nat} (h : ids.Nodup) :
    (t.deleteEach ids).1 = ids.filterMap t.get? := by
  induction ids generalizing t with
  | nil => rfl
  | cons id ids ih =>
    obtain ⟨hid, hids⟩ := List.nodup_cons.mp h
    have hothers : ids.filterMap (t.remove id).get? = ids.filterMap t.get? := by
      refine List.filterMap_congr fun id' hid' => ?_
      refine Numbered.get?_erase.trans (if_neg ?_)
      rintro rfl
      exact hid hid'
    have hfirst : (t.get? id).toList ++ ids.filterMap t.get? = (id :: ids).filterMap t.get? := by
      cases hget : t.get? id <;> simp [hget]
    simp only [deleteEach, delete]
    rw [ih _ hids, hothers, hfirst]

theorem nodup_ids (t : JobTable) : (t.values.map Job.id).Nodup := by
  rw [map_id_values]
  exact t.increasing.imp Nat.ne_of_lt

theorem id_mem_finishedIds (h : job ∈ t.values) : job.id ∈ t.finishedIds ↔ job.pids = [] := by
  rw [finishedIds, List.mem_map]
  constructor
  · rintro ⟨job', hjob', hid⟩
    obtain ⟨hmem, hempty⟩ := List.mem_filter.mp hjob'
    obtain rfl := List.inj_on_of_nodup_map t.nodup_ids hmem h hid
    simpa using hempty
  · intro hempty
    exact ⟨job, List.mem_filter.mpr ⟨h, by simp [hempty]⟩, rfl⟩

/-- The jobs that are taken are those that have no process left. -/
theorem takeFinished_fst (t : JobTable) :
    t.takeFinished.1 = t.values.filter fun job => job.pids.isEmpty := by
  have hnodup : t.finishedIds.Nodup := t.nodup_ids.sublist (List.filter_sublist.map _)
  rw [takeFinished, deleteEach_fst t hnodup, finishedIds, List.filterMap_map]
  refine (List.filterMap_congr fun job hjob => ?_).trans List.filterMap_some
  exact get?_eq_some_iff.mpr ⟨(List.mem_filter.mp hjob).1, rfl⟩

/-- The jobs that stay are those that have one. -/
theorem values_takeFinished (t : JobTable) :
    t.takeFinished.2.values = t.values.filter fun job => !job.pids.isEmpty := by
  rw [takeFinished, values_deleteEach]
  refine List.filter_congr fun job hjob => ?_
  have hmem := id_mem_finishedIds hjob
  cases hp : job.pids <;> simp_all

/-- Taking the finished jobs splits the table in two. -/
theorem eq_takeFinished_iff {done : List Job} : (done, t') = t.takeFinished ↔
    done = t.values.filter (fun job => job.pids.isEmpty) ∧
      t'.values = t.values.filter fun job => !job.pids.isEmpty := by
  rw [← takeFinished_fst, ← values_takeFinished]
  constructor
  · intro h
    exact ⟨congrArg Prod.fst h, congrArg (fun split => split.2.values) h⟩
  · rintro ⟨hdone, hleft⟩
    exact Prod.ext hdone (eq_of_values hleft)

theorem listed_takeFinished (t : JobTable) : t.takeFinished.2.listed = t.listed := by
  rw [listed, values_takeFinished]
  exact pidsOf_filter_nonempty t.values

theorem tags_takeFinished (t : JobTable) :
    (tags t.takeFinished.1 ++ tags t.takeFinished.2.values).Perm (tags t.values) := by
  rw [takeFinished_fst, values_takeFinished, ← tags_append]
  exact tags_perm (List.filter_append_perm _ _)

end JobTable

end JobShell
