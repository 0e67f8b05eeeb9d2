/-!
Finite tables whose keys are natural numbers, listed by increasing key. The numbers
that a table leaves free are found from below: descriptors and job ids are both given
out that way.
-/
namespace JobShell

structure Numbered (α : Type) where
  entries : List (Nat × α) := []
  deriving DecidableEq, Repr

namespace Numbered

def size (t : Numbered α) : Nat := t.entries.length

def isEmpty (t : Numbered α) : Bool := t.entries.isEmpty

def numbers (t : Numbered α) : List Nat := t.entries.map Prod.fst

def values (t : Numbered α) : List α := t.entries.map Prod.snd

def get? (t : Numbered α) (n : Nat) : Option α := t.entries.lookup n

/-- Puts a value in its place among increasing entries, instead of one under the same number. -/
def putEntry (n : Nat) (a : α) : List (Nat × α) → List (Nat × α)
  | [] => [(n, a)]
  | entry :: entries =>
    if n < entry.1 then (n, a) :: entry :: entries
    else if n = entry.1 then (n, a) :: entries
    else entry :: putEntry n a entries

def put (t : Numbered α) (n : Nat) (a : α) : Numbered α := ⟨putEntry n a t.entries⟩

def erase (t : Numbered α) (n : Nat) : Numbered α :=
  ⟨t.entries.filter fun entry => entry.1 != n⟩

/-- The numbers increase. -/
def Ordered (t : Numbered α) : Prop := t.numbers.Pairwise (· < ·)

theorem ordered_nil : Ordered ({} : Numbered α) := List.Pairwise.nil

theorem mem_putEntry {n : Nat} {a : α} {entry : Nat × α} {entries : List (Nat × α)}
    (h : entry ∈ putEntry n a entries) : entry = (n, a) ∨ entry ∈ entries := by
  induction entries with
  | nil => simpa [putEntry] using h
  | cons first entries ih =>
    unfold putEntry at h
    split at h
    · simpa using h
    · split at h
      · rw [List.mem_cons] at h
        exact h.imp id (List.mem_cons_of_mem _)
      · obtain rfl | h := List.mem_cons.mp h
        · exact .inr List.mem_cons_self
        · exact (ih h).imp id (List.mem_cons_of_mem _)

theorem ordered_putEntry {entries : List (Nat × α)} (h : (entries.map Prod.fst).Pairwise (· < ·))
    (n : Nat) (a : α) : ((putEntry n a entries).map Prod.fst).Pairwise (· < ·) := by
  induction entries with
  | nil => simp [putEntry]
  | cons entry entries ih =>
    rw [List.map_cons, List.pairwise_cons] at h
    unfold putEntry
    split
    · rename_i hlt
      simp only [List.map_cons, List.pairwise_cons, List.mem_cons]
      refine ⟨?_, h⟩
      rintro m (rfl | hm)
      · exact hlt
      · exact Nat.lt_trans hlt (h.1 m hm)
    · split
      · rename_i heq
        simp only [List.map_cons, List.pairwise_cons]
        exact ⟨fun m hm => heq ▸ h.1 m hm, h.2⟩
      · simp only [List.map_cons, List.pairwise_cons]
        refine ⟨fun m hm => ?_, ih h.2⟩
        obtain ⟨entry', hentry, rfl⟩ := List.mem_map.mp hm
        obtain rfl | hentry := mem_putEntry hentry
        · dsimp only
          omega
        · exact h.1 _ (List.mem_map_of_mem hentry)

theorem Ordered.put {t : Numbered α} (h : t.Ordered) (n : Nat) (a : α) : (t.put n a).Ordered :=
  ordered_putEntry h n a

theorem Ordered.erase {t : Numbered α} (h : t.Ordered) (n : Nat) : (t.erase n).Ordered :=
  h.sublist (List.filter_sublist.map _)

/-- The first number from `lowest` on that an increasing list leaves out. -/
def firstGap (lowest : Nat) : List Nat → Nat
  | [] => lowest
  | n :: ns =>
    if n < lowest then firstGap lowest ns
    else if n = lowest then firstGap (lowest + 1) ns
    else lowest

/-- The smallest number from `lowest` on that is not in use. -/
def firstFree (t : Numbered α) (lowest : Nat) : Nat := firstGap lowest t.numbers

theorem le_firstGap (lowest : Nat) (ns : List Nat) : lowest ≤ firstGap lowest ns := by
  fun_induction firstGap lowest ns <;> omega

theorem firstGap_le (lowest : Nat) (ns : List Nat) :
    firstGap lowest ns ≤ lowest + ns.length := by
  fun_induction firstGap lowest ns <;> simp_all <;> omega

end Numbered

end JobShell
