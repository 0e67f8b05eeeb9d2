import JobShell.Numbered
import JobShell.WaitStatus

/-!
The jobs that the shell does not wait for. A new job gets the smallest positive id that
is free.
-/
namespace JobShell

inductive JobState where
  | running
  | stopped
  deriving DecidableEq, Repr

structure Job where
  /-- The id under which the table has it. -/
  id : Nat
  group : Pid
  /-- Stages not collected yet. -/
  pids : List Pid
  state : JobState
  text : String
  deriving DecidableEq, Repr

theorem filed_nil : ∀ entry ∈ ([] : List (Nat × Job)), entry.2.id = entry.1 := by simp

/-- Jobs under their ids, which increase. -/
@[ext]
structure JobTable extends Numbered Job where
  increasing : toNumbered.Ordered := by exact Numbered.ordered_nil
  filed : ∀ entry ∈ entries, entry.2.id = entry.1 := by exact filed_nil
  deriving Repr

namespace JobTable

/-- The smallest positive id not in use. -/
def freeId (t : JobTable) : Nat := t.firstFree 1

def insert (t : JobTable) (job : Job) : JobTable where
  toNumbered := t.put job.id job
  increasing := t.increasing.put job.id job
  filed entry hentry := by
    obtain rfl | hentry := Numbered.mem_putEntry hentry
    · rfl
    · exact t.filed entry hentry

def add (t : JobTable) (group : Pid) (pids : List Pid) (state : JobState) (text : String) :
    Nat × JobTable :=
  (t.freeId, t.insert { id := t.freeId, group, pids, state, text })

def remove (t : JobTable) (id : Nat) : JobTable where
  toNumbered := t.erase id
  increasing := t.increasing.erase id
  filed entry hentry := t.filed entry (List.mem_filter.mp hentry).1

def delete (t : JobTable) (id : Nat) : Option Job × JobTable := (t.get? id, t.remove id)

theorem map_id_values (t : JobTable) : t.values.map Job.id = t.numbers := by
  rw [Numbered.values, Numbered.numbers, List.map_map]
  exact List.map_congr_left t.filed

/-- A table of jobs whose ids increase. -/
def ofJobs (jobs : List Job) (h : (jobs.map Job.id).Pairwise (· < ·)) : JobTable where
  entries := jobs.map fun job => (job.id, job)
  increasing := by
    rw [Numbered.Ordered, Numbered.numbers, List.map_map]
    exact h
  filed entry hentry := by
    obtain ⟨job, -, rfl⟩ := List.mem_map.mp hentry
    rfl

/-- Each job keeps the processes in its place of the second list. -/
def keepPids : List Job → List (List Pid) → List Job
  | job :: jobs, pids :: left => { job with pids } :: keepPids jobs left
  | jobs, _ => jobs

theorem map_id_keepPids (jobs : List Job) (left : List (List Pid)) :
    (keepPids jobs left).map Job.id = jobs.map Job.id := by
  fun_induction keepPids jobs left with
  | case1 job jobs pids left ih => rw [List.map_cons, List.map_cons, ih]
  | case2 => rfl

/-- The table with the processes that are left of each job. -/
def retain (t : JobTable) (left : List (List Pid)) : JobTable :=
  ofJobs (keepPids t.values left) (by rw [map_id_keepPids, map_id_values]; exact t.increasing)

def finishedIds (t : JobTable) : List Nat :=
  (t.values.filter fun job => job.pids.isEmpty).map Job.id

/-- Removes jobs one after another and returns those that were there. -/
def deleteEach (t : JobTable) : List Nat → List Job × JobTable
  | [] => ([], t)
  | id :: ids =>
    let (job, t) := t.delete id
    let (jobs, t) := t.deleteEach ids
    (job.toList ++ jobs, t)

/-- Removes the jobs that have no stage left and returns them. -/
def takeFinished (t : JobTable) : List Job × JobTable := t.deleteEach t.finishedIds

end JobTable

end JobShell
