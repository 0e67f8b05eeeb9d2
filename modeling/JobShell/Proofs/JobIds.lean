import Mathlib.Order.Bounds.Basic
import JobShell.Proofs.Reaping

/-!
The ids of jobs. A table is looked up by number, and a new job gets the smallest positive number
that is free, whichever jobs have been taken off the table before. Such a number is at most one
more than there are jobs, so that ids stay as small as the table has ever been large.
-/
namespace JobShell

open Program

namespace Numbered

variable {α : Type} {t : Numbered α} {n m : Nat} {a : α}

theorem erase_of_get?_eq_none (h : t.get? n = none) : t.erase n = t := by
  have hnot := get?_eq_none_iff.mp h
  have hkeep : t.entries.filter (fun entry => entry.1 != n) = t.entries := by
    rw [List.filter_eq_self]
    intro entry hentry
    simp only [bne_iff_ne, ne_eq]
    rintro rfl
    exact hnot (List.mem_map_of_mem hentry)
  rw [erase, hkeep]

theorem size_put (h : n ∉ t.numbers) : (t.put n a).size = t.size + 1 :=
  (putEntry_perm a h).length_eq

/-- All numbers below the first gap are in use. -/
theorem mem_of_lt_firstGap {lowest k : Nat} {ns : List Nat} (hk : lowest ≤ k)
    (hlt : k < firstGap lowest ns) : k ∈ ns := by
  induction ns generalizing lowest with
  | nil =>
    rw [firstGap] at hlt
    omega
  | cons n ns ih =>
    unfold firstGap at hlt
    split at hlt
    · exact List.mem_cons_of_mem n (ih hk hlt)
    · split at hlt
      · by_cases hkn : k = n
        · exact hkn ▸ List.mem_cons_self
        · exact List.mem_cons_of_mem n (ih (by omega) hlt)
      · omega

/-- Counting up from `n` past numbers in use ends at the free number `m`. -/
inductive CountsTo (t : Numbered α) : Nat → Nat → Prop
  | free {n : Nat} : n ∉ t.numbers → CountsTo t n n
  | used {n m : Nat} : n ∈ t.numbers → CountsTo t (n + 1) m → CountsTo t n m

theorem countsTo_firstFree (h : t.Ordered) (lowest : Nat) :
    t.CountsTo lowest (t.firstFree lowest) := by
  have hcount (k : Nat) : ∀ n, lowest ≤ n → n + k = t.firstFree lowest →
      t.CountsTo n (t.firstFree lowest) := by
    induction k with
    | zero =>
      rintro n - rfl
      exact .free (firstFree_not_mem h lowest)
    | succ k ih =>
      intro n hn hk
      refine .used (mem_of_lt_firstGap hn ?_) (ih (n + 1) (by omega) (by omega))
      change n < t.firstFree lowest
      omega
  have hle : lowest ≤ t.firstFree lowest := le_firstGap lowest t.numbers
  exact hcount (t.firstFree lowest - lowest) lowest (Nat.le_refl lowest) (by omega)

theorem isLeast_firstFree (h : t.Ordered) (lowest : Nat) :
    IsLeast {n | lowest ≤ n ∧ t.get? n = none} (t.firstFree lowest) := by
  constructor
  · exact ⟨le_firstGap lowest t.numbers, get?_eq_none_iff.mpr (firstFree_not_mem h lowest)⟩
  · rintro n ⟨hn, hfree⟩
    by_contra hlt
    exact get?_eq_none_iff.mp hfree (mem_of_lt_firstGap hn (Nat.lt_of_not_le hlt))

end Numbered

namespace JobTable

variable {t t' : JobTable}

theorem freeId_le (t : JobTable) : t.freeId ≤ t.size + 1 := by
  have hle := Numbered.firstGap_le 1 t.numbers
  rw [Numbered.numbers, List.length_map, Nat.add_comm] at hle
  exact hle

theorem size_add (t : JobTable) (group : Pid) (pids : List Pid) (state : JobState)
    (text : String) : (t.add group pids state text).2.size = t.size + 1 :=
  Numbered.size_put (Numbered.firstFree_not_mem t.increasing 1)

theorem remove_of_get?_eq_none {id : Nat} (h : t.get? id = none) : t.remove id = t := by
  refine JobTable.ext ?_
  exact congrArg Numbered.entries (Numbered.erase_of_get?_eq_none h)

/-- The tables that there have been, the newest first, and the ids that were given out, while
jobs were added and deleted and the table was reaped. -/
inductive History : List JobTable → List Nat → Prop
  | empty : History [{}] []
  | add {t : JobTable} {past : List JobTable} {issued : List Nat} (group : Pid)
      (pids : List Pid) (state : JobState) (text : String) :
      History (t :: past) issued →
      History ((t.add group pids state text).2 :: t :: past)
        (issued ++ [(t.add group pids state text).1])
  | delete {t : JobTable} {past : List JobTable} {issued : List Nat} (id : Nat) :
      History (t :: past) issued → History ((t.delete id).2 :: t :: past) issued
  | reap {t t' : JobTable} {past : List JobTable} {issued : List Nat} {events : List Event}
      {done : List Job} : History (t :: past) issued → Runs t.reap events (done, t') →
      History (t' :: t :: past) issued

/-- Reaping gives no job another id, and makes none. -/
theorem numbers_reap {events : List Event} {done : List Job}
    (h : Runs t.reap events (done, t')) : t'.numbers.Sublist t.numbers := by
  obtain ⟨left, -, hsplit⟩ := runs_reap.mp h
  obtain rfl : t' = (t.retain left).takeFinished.2 := congrArg Prod.snd hsplit
  rw [← map_id_values, ← map_id_values t, values_takeFinished, values_retain,
    ← map_id_keepPids t.values left]
  exact List.filter_sublist.map _

theorem History.positive {past : List JobTable} {issued : List Nat}
    (h : History (t :: past) issued) : ∀ id ∈ t.numbers, 1 ≤ id := by
  generalize htables : t :: past = tables at h
  induction h generalizing t past with
  | empty =>
    obtain ⟨rfl, -⟩ := List.cons.inj htables
    simp [Numbered.numbers]
  | @add u _ _ group pids state text _ ih =>
    obtain ⟨rfl, -⟩ := List.cons.inj htables
    intro id hid
    rw [← map_id_values] at hid
    obtain ⟨job, hjob, rfl⟩ := List.mem_map.mp hid
    obtain rfl | hjob := List.mem_cons.mp ((insert_perm (t := u) rfl).subset hjob)
    · exact Numbered.le_firstGap 1 u.numbers
    · exact ih rfl job.id (map_id_values u ▸ List.mem_map_of_mem hjob)
  | @delete u _ _ id _ ih =>
    obtain ⟨rfl, -⟩ := List.cons.inj htables
    exact fun id' hid => ih rfl id' ((List.filter_sublist.map Prod.fst).subset hid)
  | reap _ hreap ih =>
    obtain ⟨rfl, -⟩ := List.cons.inj htables
    exact fun id hid => ih rfl id ((numbers_reap hreap).subset hid)

/-- No id that was given out is larger than the table has been at some time. -/
theorem History.issued_le {tables : List JobTable} {issued : List Nat} (h : History tables issued)
    {n : Nat} (hn : ∀ t ∈ tables, t.size ≤ n) : ∀ id ∈ issued, id ≤ n := by
  induction h with
  | empty => simp
  | @add t past issued group pids state text _ ih =>
    intro id hid
    obtain hid | hid := List.mem_append.mp hid
    · exact ih (fun t ht => hn t (List.mem_cons_of_mem _ ht)) id hid
    · obtain rfl := List.mem_singleton.mp hid
      have hsize := hn _ List.mem_cons_self
      rw [size_add] at hsize
      exact Nat.le_trans (freeId_le t) hsize
  | delete _ _ ih => exact ih fun t ht => hn t (List.mem_cons_of_mem _ ht)
  | reap _ _ ih => exact ih fun t ht => hn t (List.mem_cons_of_mem _ ht)

/-- In every table that adding and deleting jobs and reaping can lead to, each job is found under
its own id, no id is 0, and the search for a free one ends. A new job gets the smallest positive
id that no job has, at most one more than there are jobs, and changes nothing about the others;
deleting takes away the job with that id alone, if there is one. However many jobs are added, no
id is larger than the number of jobs that the table held at some time. -/
theorem job_ids_bounded {past : List JobTable} {issued : List Nat}
    (h : History (t :: past) issued) :
    (∀ id job, (id, job) ∈ t.entries ↔ t.get? id = some job) ∧
    (∀ id job, t.get? id = some job → job.id = id) ∧
    (∀ id ∈ t.numbers, 1 ≤ id) ∧
    t.CountsTo 1 t.freeId ∧
    (∀ group pids state text,
      IsLeast {id | 1 ≤ id ∧ t.get? id = none} (t.add group pids state text).1 ∧
      (t.add group pids state text).1 ≤ t.size + 1 ∧
      (∀ id, (t.add group pids state text).2.get? id =
        if id = (t.add group pids state text).1 then some ⟨id, group, pids, state, text⟩
        else t.get? id) ∧
      (t.add group pids state text).2.size = t.size + 1) ∧
    (∀ id, (t.delete id).1 = t.get? id ∧
      (∀ id', (t.delete id).2.get? id' = if id' = id then none else t.get? id') ∧
      (t.get? id = none → (t.delete id).2 = t)) ∧
    ∀ n, (∀ u ∈ t :: past, u.size ≤ n) → ∀ id ∈ issued, id ≤ n := by
  refine ⟨?_, fun id job hjob => (get?_eq_some_iff.mp hjob).2, h.positive,
    Numbered.countsTo_firstFree t.increasing 1, ?_, ?_, ?_⟩
  · exact fun id job => (Numbered.get?_eq_some_iff t.increasing).symm
  · intro group pids state text
    refine ⟨Numbered.isLeast_firstFree t.increasing 1, freeId_le t, fun id => ?_,
      size_add t group pids state text⟩
    refine Numbered.get?_put.trans ?_
    change (if id = t.freeId then _ else _) = if id = t.freeId then _ else _
    split
    · rename_i hid
      rw [hid]
    · rfl
  · intro id
    exact ⟨rfl, fun id' => Numbered.get?_erase, remove_of_get?_eq_none⟩
  · exact fun n hn => h.issued_le hn

/-- A job with one process. -/
def catJob (id : Nat) (pid : Pid) : Job :=
  { id, group := pid, pids := [pid], state := .running, text := "cat" }

def addCat (t : JobTable) (pid : Pid) : JobTable := (t.add pid [pid] .running "cat").2

/-- Of three jobs the second is deleted and the first is reaped, and the id of the first is given
out again. -/
theorem job_ids_bounded_reused :
    ∃ t past, History (t :: past) [1, 2, 3, 1] ∧ t.numbers = [1, 3] ∧
      (∀ group pids state text,
        IsLeast {id | 1 ≤ id ∧ t.get? id = none} (t.add group pids state text).1) ∧
      ∀ id ∈ [1, 2, 3, 1], id ≤ 3 := by
  let three : JobTable := .ofJobs [catJob 1 100, catJob 2 200, catJob 3 300] (by decide)
  let two : JobTable := .ofJobs [catJob 1 100, catJob 3 300] (by decide)
  let one : JobTable := .ofJobs [catJob 3 300] (by decide)
  have hthree : addCat (addCat (addCat {} 100) 200) 300 = three := eq_of_values rfl
  have hdelete : (three.delete 2).2 = two := eq_of_values rfl
  have hreap : Runs two.reap
      [.call (.wait 100 { noHang := true }) (.ok (.exited 0)),
        .call (.wait 300 { noHang := true }) (.ok .stillAlive)]
      ([{ catJob 1 100 with pids := [] }], one) :=
    runs_reap.mpr ⟨[[], [300]], .call _ (.call _ (.refl _)), eq_takeFinished_iff.mpr ⟨rfl, rfl⟩⟩
  have hadded : History [three, addCat (addCat {} 100) 200, addCat {} 100, {}] [1, 2, 3] :=
    hthree ▸ .add 300 [300] .running "cat" (.add 200 [200] .running "cat"
      (.add 100 [100] .running "cat" .empty))
  have htwo : History [two, three, addCat (addCat {} 100) 200, addCat {} 100, {}] [1, 2, 3] :=
    hdelete ▸ hadded.delete 2
  have h : History [addCat one 400, one, two, three, addCat (addCat {} 100) 200, addCat {} 100, {}]
      [1, 2, 3, 1] :=
    .add 400 [400] .running "cat" (htwo.reap hreap)
  obtain ⟨-, -, -, -, hadd, -, hbound⟩ := job_ids_bounded h
  refine ⟨addCat one 400, _, h, rfl, fun group pids state text => (hadd group pids state text).1,
    hbound 3 ?_⟩
  decide

end JobTable

end JobShell
