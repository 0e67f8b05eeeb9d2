import Mathlib.Data.List.Induction
import JobShell.Builtin

/-!
Decimal numerals as a grammar: an optional sign and digits, each of which weighs ten times what
comes behind it. The numerals that `exit` takes are these, as long as the value has 32 bits. An
integer in its own decimal spelling is a numeral of itself and of no other.
-/
namespace JobShell

open Text

/-- Digits that spell a number, the last one being its units. Zeros may stand in front. -/
inductive Digits : List Char → Nat → Prop
  | one {d : Nat} : d < 10 → Digits [d.digitChar] d
  | more {cs : List Char} {n d : Nat} : Digits cs n → d < 10 →
      Digits (cs ++ [d.digitChar]) (10 * n + d)

/-- Digits, or digits behind a sign. -/
inductive Numeral : List Char → Int → Prop
  | plain {cs : List Char} {n : Nat} : Digits cs n → Numeral cs n
  | plus {cs : List Char} {n : Nat} : Digits cs n → Numeral ('+' :: cs) n
  | minus {cs : List Char} {n : Nat} : Digits cs n → Numeral ('-' :: cs) (-n)

/-- The arguments of `exit` ask for this status: there is none and the status is 0, or the first
one is a numeral of 32 bits. What comes behind it does not matter. -/
def AsksFor : List String → Status → Prop
  | [], status => status = 0
  | arg :: _, status =>
    Numeral arg.toList status ∧ -2147483648 ≤ status ∧ status ≤ 2147483647

theorem isDigit_iff {c : Char} : isDigit c = true ↔ ∃ d < 10, d.digitChar = c := by
  have hrange {c : Char} : isDigit c = true ↔ 48 ≤ c.toNat ∧ c.toNat ≤ 57 := by
    simp only [isDigit, Bool.and_eq_true, decide_eq_true_eq, Char.le_def,
      UInt32.le_iff_toNat_le]
    rfl
  rw [hrange]
  constructor
  · intro h
    have hlt : c.toNat - 48 < 10 := by omega
    refine ⟨c.toNat - 48, hlt, ?_⟩
    rw [← Char.toNat_inj, Nat.toNat_digitChar_of_lt_ten hlt]
    omega
  · rintro ⟨d, hd, rfl⟩
    have hvalue := Nat.toNat_digitChar_of_lt_ten hd
    omega

theorem natural?_digit {d : Nat} (hd : d < 10) : natural? [d.digitChar] = some d := by
  have hdigit : isDigit d.digitChar = true := isDigit_iff.mpr ⟨d, hd, rfl⟩
  simp [natural?, hdigit, digitsValue, Nat.toNat_digitChar_of_lt_ten hd]

theorem natural?_concat {cs : List Char} {d : Nat} (hne : cs ≠ []) (hd : d < 10) :
    natural? (cs ++ [d.digitChar]) = (natural? cs).map fun n => 10 * n + d := by
  have hdigit : isDigit d.digitChar = true := isDigit_iff.mpr ⟨d, hd, rfl⟩
  by_cases h : cs.all isDigit = true
  · simp [natural?, hne, h, hdigit, digitsValue_append, Nat.toNat_digitChar_of_lt_ten hd]
  · simp [natural?, hne, h]

theorem Digits.ne_nil {cs : List Char} {n : Nat} (h : Digits cs n) : cs ≠ [] := by
  cases h with
  | one _ => simp
  | more _ _ => simp

theorem natural?_eq_some_iff {cs : List Char} {n : Nat} : natural? cs = some n ↔ Digits cs n := by
  constructor
  · induction cs using List.reverseRecOn generalizing n with
    | nil => simp [natural?]
    | append_singleton cs c ih =>
      intro h
      have hall : ∀ c' ∈ cs ++ [c], isDigit c' = true := by
        unfold natural? at h
        split at h
        · rename_i hdigits
          exact List.all_eq_true.mp hdigits.2
        · cases h
      obtain ⟨d, hd, rfl⟩ := isDigit_iff.mp (hall c (by simp))
      by_cases hne : cs = []
      · subst hne
        obtain rfl : d = n := Option.some.inj ((natural?_digit hd).symm.trans h)
        exact .one hd
      · rw [natural?_concat hne hd, Option.map_eq_some_iff] at h
        obtain ⟨m, hm, rfl⟩ := h
        exact .more (ih hm) hd
  · intro h
    induction h with
    | one hd => exact natural?_digit hd
    | more h hd ih => rw [natural?_concat h.ne_nil hd, ih, Option.map_some]

/-- Neither sign is a digit. -/
theorem Digits.head {c : Char} {cs : List Char} {n : Nat} (h : Digits (c :: cs) n) :
    c ≠ '+' ∧ c ≠ '-' := by
  have hdigit : isDigit c = true := by
    by_contra hnot
    simp [← natural?_eq_some_iff, natural?, hnot] at h
  constructor
  · rintro rfl
    exact absurd hdigit (by decide)
  · rintro rfl
    exact absurd hdigit (by decide)

theorem integer?_eq_some_iff {cs : List Char} {n : Int} :
    integer? cs = some n ↔ Numeral cs n := by
  constructor
  · intro h
    unfold integer? at h
    split at h
    · obtain ⟨m, hm, rfl⟩ := Option.map_eq_some_iff.mp h
      exact .plus (natural?_eq_some_iff.mp hm)
    · rename_i cs
      obtain ⟨m, hm, rfl⟩ : ∃ m, natural? cs = some m ∧ -(m : Int) = n := by
        cases hcs : natural? cs with
        | none => simp [hcs] at h
        | some m => simpa [hcs] using h
      exact .minus (natural?_eq_some_iff.mp hm)
    · obtain ⟨m, hm, rfl⟩ := Option.map_eq_some_iff.mp h
      exact .plain (natural?_eq_some_iff.mp hm)
  · intro h
    cases h with
    | plain h =>
      have hvalue := natural?_eq_some_iff.mpr h
      unfold integer?
      split
      · exact absurd rfl h.head.1
      · exact absurd rfl h.head.2
      · rw [hvalue]
        rfl
    | plus h =>
      rw [integer?, natural?_eq_some_iff.mpr h]
      rfl
    | minus h =>
      rw [integer?, natural?_eq_some_iff.mpr h]
      rfl

theorem exitStatus_eq_ok_iff {args : List String} {outcome : Outcome} :
    exitStatus args.head? = .ok outcome ↔ ∃ status, outcome = .exit status ∧ AsksFor args status := by
  cases args with
  | nil => simp [exitStatus, AsksFor, eq_comm]
  | cons arg args =>
    have hvalue (status : Int) : int32? arg = some status ↔ AsksFor (arg :: args) status := by
      simp [int32?, Option.filter_eq_some_iff, integer?_eq_some_iff, AsksFor]
    simp only [List.head?_cons, exitStatus, ← hvalue]
    cases int32? arg with
    | none => simp
    | some status => simp [eq_comm]

/-- Nothing asks for two statuses. -/
theorem AsksFor.unique {args : List String} {m n : Status} (h : AsksFor args m)
    (h' : AsksFor args n) : m = n := by
  have hm := exitStatus_eq_ok_iff.mpr ⟨m, rfl, h⟩
  have hn := exitStatus_eq_ok_iff.mpr ⟨n, rfl, h'⟩
  simpa using hm.symm.trans hn

end JobShell
