import JobShell.Proofs.Grammar
import JobShell.Proofs.Lexing

/-!
A semicolon cuts a line in two. The tokens before it are those of what stands before it, as
long as that ends outside quotes, and the command list is that of the first part, with another
join at its end, followed by that of the second. A newline at the end of such a line makes no
difference.
-/
namespace JobShell

open Text (isBlank)

namespace Token

/-- What a character of a line means, given those before it. -/
inductive Quoting where
  | plain
  | quoted (quote : Char)
  | escaped
  deriving DecidableEq, Repr

/-- A quote ends where it stands again, and a backslash takes one character. -/
def Quoting.next : Quoting → Char → Quoting
  | plain, c => if isQuote c then quoted c else if c = '\\' then escaped else plain
  | quoted quote, c => if c = quote then plain else quoted quote
  | escaped, _ => plain

def Quoting.ofQuote : Option Char → Quoting
  | none => plain
  | some quote => quoted quote

@[simp] theorem foldl_plain_blank {s : List Char} (h : ∀ c ∈ s, isBlank c = true) :
    s.foldl Quoting.next .plain = .plain := by
  induction s with
  | nil => rfl
  | cons c s ih =>
    simp only [List.mem_cons, forall_eq_or_imp] at h
    have hquote : isQuote c = false := by
      cases hc : isQuote c with
      | false => rfl
      | true => obtain rfl | rfl := isQuote_iff.mp hc <;> cases h.1
    have hslash : c ≠ '\\' := by
      rintro rfl
      cases h.1
    simp [Quoting.next, hquote, hslash, ih h.2]

theorem scanWord_cons {c : Char} (hslash : c ≠ '\\') (cs : List Char) :
    scanWord none (c :: cs) =
      if isQuote c then scanWord (some c) cs
      else if isBlank c || isSpecial c then ([], c :: cs)
      else onto c (scanWord none cs) := by
  rw [scanWord.eq_def]
  simp [hslash]

/-- A character that ends a word and continues no operator. -/
structure Separates (d : Char) : Prop where
  ends : (isBlank d || isSpecial d) = true
  starts : ∀ t ∈ operators, d ∉ t.text.toList.tail

theorem separates_semicolon : Separates ';' := ⟨rfl, by decide⟩

theorem separates_newline : Separates '\n' := ⟨rfl, by decide⟩

section

variable {d : Char}

/-- A word of a line that ends outside quotes ends where it does also before a separator. -/
theorem scanWord_separator (hd : Separates d) (quote : Option Char) (cs ds : List Char)
    (h : cs.foldl Quoting.next (.ofQuote quote) = .plain) :
    scanWord quote (cs ++ d :: ds) =
        ((scanWord quote cs).1, (scanWord quote cs).2 ++ d :: ds) ∧
      (scanWord quote cs).2.foldl Quoting.next .plain = .plain := by
  induction quote, cs using scanWord.induct with
  | case1 quote =>
    cases quote with
    | none => simp [scanWord, scanWord_boundary (s := d :: ds) (by simpa [Boundary] using hd.ends)]
    | some quote => simp [Quoting.ofQuote] at h
  | case2 cs quote ih =>
    simp only [List.foldl_cons, Quoting.ofQuote, Quoting.next, ↓reduceIte] at h
    simpa [scanWord] using ih h
  | case3 c cs quote hc ih =>
    simp only [List.foldl_cons, Quoting.ofQuote, Quoting.next, if_neg hc] at h
    obtain ⟨hscan, hrest⟩ := ih h
    simp [scanWord, hc, onto, hscan, hrest]
  | case4 c cs hc ih =>
    simp only [List.foldl_cons, Quoting.ofQuote, Quoting.next, if_pos hc] at h
    simpa [scanWord_openQuote hc] using ih h
  | case5 hslash => simp [Quoting.ofQuote, Quoting.next, hslash] at h
  | case6 c cs hslash ih =>
    simp only [List.foldl_cons, Quoting.ofQuote, Quoting.next, if_neg hslash, ↓reduceIte] at h
    obtain ⟨hscan, hrest⟩ := ih h
    simp [scanWord, hslash, onto, hscan, hrest]
  | case7 c cs hquote hslash hend =>
    simp only [List.cons_append, scanWord_cons hslash, hquote, hend, ↓reduceIte]
    exact ⟨rfl, h⟩
  | case8 c cs hquote hslash hend ih =>
    simp only [List.foldl_cons, Quoting.ofQuote, Quoting.next, if_neg hquote, if_neg hslash] at h
    obtain ⟨hscan, hrest⟩ := ih h
    simp only [List.cons_append, scanWord_cons hslash, hquote, hend, onto, hscan]
    exact ⟨rfl, hrest⟩

theorem prefix_separator (hd : Separates d) {t : Token} (ht : t ∈ operators) {cs : List Char}
    (ds : List Char) (hcs : cs ≠ []) : t.text.toList <+: cs ++ d :: ds ↔ t.text.toList <+: cs := by
  constructor
  · intro h
    by_cases hlen : t.text.toList.length ≤ cs.length
    · exact List.prefix_of_prefix_length_le h (List.prefix_append cs _) hlen
    · have hseparator : cs ++ [d] <+: cs ++ d :: ds := ⟨ds, by simp⟩
      have hlen' : (cs ++ [d]).length ≤ t.text.toList.length := by
        rw [List.length_append, List.length_singleton]
        omega
      obtain ⟨rest, hrest⟩ := List.prefix_of_prefix_length_le hseparator h hlen'
      cases cs with
      | nil => exact absurd rfl hcs
      | cons c cs =>
        have hmem : d ∈ t.text.toList.tail := by
          rw [← hrest]
          simp
        exact absurd hmem (hd.starts t ht)
  · intro h
    exact h.trans (List.prefix_append cs _)

theorem operator?_separator (hd : Separates d) {cs : List Char} (ds : List Char) (hcs : cs ≠ []) :
    operator? (cs ++ d :: ds) =
      (operator? cs).map fun found => (found.1, found.2 ++ d :: ds) := by
  cases h : operator? cs with
  | none =>
    rw [operator?_eq_none_iff] at h
    refine operator?_eq_none_iff.mpr fun t ht hprefix => ?_
    exact h t ht ((prefix_separator hd ht ds hcs).mp hprefix)
  | some found =>
    obtain ⟨t, rest⟩ := found
    obtain ⟨hlongest, heq⟩ := operator?_eq_some_iff.mp h
    refine operator?_eq_some_iff.mpr ⟨⟨hlongest.mem, ?_, ?_⟩, by rw [heq, List.append_assoc]⟩
    · exact (prefix_separator hd hlongest.mem ds hcs).mpr hlongest.start
    · intro u hu hprefix
      exact hlongest.longest u hu ((prefix_separator hd hu ds hcs).mp hprefix)

/-- Nothing but white space and operators leaves the quoting as it is. -/
theorem foldl_operator {t : Token} (ht : t ∈ operators) :
    t.text.toList.foldl Quoting.next .plain = .plain := by
  revert t
  decide

/-- White space in front does not change how a line ends. -/
theorem foldl_dropWhile_blank (cs : List Char) :
    (cs.dropWhile isBlank).foldl Quoting.next .plain = cs.foldl Quoting.next .plain := by
  have hblank : ∀ c ∈ cs.takeWhile isBlank, isBlank c = true := fun c => List.mem_takeWhile_imp
  calc (cs.dropWhile isBlank).foldl Quoting.next .plain
      = (cs.takeWhile isBlank ++ cs.dropWhile isBlank).foldl Quoting.next .plain := by
        rw [List.foldl_append, foldl_plain_blank hblank]
    _ = cs.foldl Quoting.next .plain := by rw [List.takeWhile_append_dropWhile]

theorem scan_separator (hd : Separates d) {cs rest : List Char} {t : Token} (ds : List Char)
    (h : scan cs = some (t, rest)) (hs : cs.foldl Quoting.next .plain = .plain) :
    scan (cs ++ d :: ds) = some (t, rest ++ d :: ds) ∧
      rest.foldl Quoting.next .plain = .plain := by
  have hfront := (foldl_dropWhile_blank cs).trans hs
  unfold scan at h ⊢
  split at h
  · cases h
  · rename_i c cs' hc
    rw [hc] at hfront
    have hdrop : (cs ++ d :: ds).dropWhile isBlank = c :: (cs' ++ d :: ds) := by
      rw [List.dropWhile_append, hc]
      rfl
    have hop := operator?_separator hd ds (List.cons_ne_nil c cs')
    rw [List.cons_append] at hop
    simp only [hdrop, hop]
    split at h
    · rename_i found hfound
      cases h
      obtain ⟨hlongest, heq⟩ := operator?_eq_some_iff.mp hfound
      rw [heq, List.foldl_append, foldl_operator hlongest.mem] at hfront
      simp only [hfound, Option.map_some]
      exact ⟨trivial, hfront⟩
    · rename_i hnone
      obtain ⟨hword, hrest⟩ := scanWord_separator hd none (c :: cs') ds hfront
      rw [List.cons_append] at hword
      simp only [Option.some.injEq, Prod.mk.injEq] at h
      obtain ⟨rfl, rfl⟩ := h
      simp only [hnone, Option.map_none, hword]
      exact ⟨trivial, hrest⟩

end

/-- White space in front of an input makes no token. -/
theorem scanAll_blank_append {ws : List Char} (h : ∀ c ∈ ws, isBlank c = true) (cs : List Char) :
    scanAll (ws ++ cs) = scanAll cs := by
  have hscan : scan (ws ++ cs) = scan cs := by
    unfold scan
    rw [List.dropWhile_append_of_pos h]
  cases hcs : scan cs with
  | none => rw [scanAll_of_none hcs, scanAll_of_none (hscan.trans hcs)]
  | some found => rw [scanAll_of_some hcs, scanAll_of_some (hscan.trans hcs)]

/-- A line that ends outside quotes has its own tokens also before a separator, and those of
what starts with the separator follow. -/
theorem scanAll_separator {d : Char} (hd : Separates d) (cs ds : List Char)
    (h : cs.foldl Quoting.next .plain = .plain) :
    scanAll (cs ++ d :: ds) = scanAll cs ++ scanAll (d :: ds) := by
  induction hn : cs.length using Nat.strongRecOn generalizing cs with
  | ind n ih =>
    cases hscan : scan cs with
    | none =>
      rw [scanAll_blank_append (scan_eq_none_iff.mp hscan), scanAll_of_none hscan, List.nil_append]
    | some found =>
      obtain ⟨t, rest⟩ := found
      obtain ⟨hthen, hrest⟩ := scan_separator hd ds hscan h
      have hlt : rest.length < n := hn ▸ scan_length_lt hscan
      rw [scanAll_of_some hthen, scanAll_of_some hscan, ih _ hlt rest hrest rfl, List.cons_append]

theorem scanAll_semicolon (cs ds : List Char) (h : cs.foldl Quoting.next .plain = .plain) :
    scanAll (cs ++ ';' :: ds) = scanAll cs ++ ⟨.sequence, ";"⟩ :: scanAll ds := by
  have hscan : scan (';' :: ds) = some (⟨.sequence, ";"⟩, ds) := rfl
  rw [scanAll_separator separates_semicolon cs ds h, scanAll_of_some hscan]

/-- Behind a line that ends outside quotes a newline makes no token. -/
theorem scanAll_newline (cs : List Char) (h : cs.foldl Quoting.next .plain = .plain) :
    scanAll (cs ++ ['\n']) = scanAll cs := by
  have hscan : scan ['\n'] = none := rfl
  rw [scanAll_separator separates_newline cs [] h, scanAll_of_none hscan, List.append_nil]

end Token

/-- Only an `&&` or an `||` in front forbids that nothing follows. -/
theorem Completes.rejoin {before : List Stage} {s : Stage} {join join' : Option Join}
    {ts : List Token} {ps : CommandList} (h : Completes before s join ts ps)
    (hand : join' ≠ some .and) (hor : join' ≠ some .or) : Completes before s join' ts ps := by
  cases h with
  | tail hs ht _ _ => exact .tail hs ht hand hor
  | ended hc => exact .ended hc
  | closed text hc hk h => exact .closed text hc hk h

/-- Tokens that end a list go on behind a semicolon, which becomes the join of its last
pipeline. -/
theorem Completes.semicolon {before : List Stage} {s : Stage} {join : Option Join}
    {ts us : List Token} {init ps : CommandList} {p : Pipeline} (text : String)
    (h : Completes before s join ts (init ++ [p])) (hp : p.join = .none)
    (hrest : Completes [] {} (some .sequence) us ps) :
    Completes before s join (ts ++ ⟨.sequence, text⟩ :: us)
      (init ++ { p with join := .sequence } :: ps) := by
  generalize hl : init ++ [p] = list at h
  induction h generalizing init with
  | tail _ _ _ _ => simp at hl
  | ended hc =>
    obtain ⟨rfl, rfl⟩ : init = [] ∧ p = _ := by simpa [List.append_eq_singleton_iff] using hl
    exact .closed text hc rfl hrest
  | closed text' hc hk _ ih =>
    cases init with
    | nil =>
      obtain ⟨rfl, -⟩ : p = _ ∧ _ := by simpa using hl
      dsimp only at hp
      rw [hp] at hk
      cases hk
    | cons q init =>
      simp only [List.cons_append, List.cons.injEq] at hl
      obtain ⟨rfl, hl⟩ := hl
      rw [List.append_assoc, List.cons_append]
      exact .closed text' hc hk (ih hl)

/-- The line ends neither inside quotes nor behind a backslash that takes a character. -/
def EndsPlain (line : String) : Prop := line.toList.foldl Token.Quoting.next .plain = .plain

instance (line : String) : Decidable (EndsPlain line) := inferInstanceAs (Decidable (_ = _))

/-- With a semicolon between two lines the list of the first is followed by that of the
second. -/
theorem parse_semicolon {a b : String} {init lb : CommandList} {p : Pipeline} (ha : EndsPlain a)
    (hla : parse a = .ok (init ++ [p])) (hp : p.join = .none) (hlb : parse b = .ok lb)
    (hne : lb ≠ []) :
    parse (a ++ ";" ++ b) = .ok (init ++ { p with join := .sequence } :: lb) := by
  have htokens : tokens (a ++ ";" ++ b) = tokens a ++ ⟨.sequence, ";"⟩ :: tokens b := by
    have hlist : (a ++ ";" ++ b).toList = a.toList ++ ';' :: b.toList := by simp
    rw [tokens, hlist, Token.scanAll_semicolon _ _ ha]
    rfl
  have hla' : (init ++ [p]) ≠ [] := by simp
  obtain ⟨-, la', heq, hfirst⟩ := explains_of_buildFrom hla' {} (tokens a) hla
  obtain ⟨-, lb', heq', hsecond⟩ := explains_of_buildFrom hne {} (tokens b) hlb
  obtain rfl : init ++ [p] = la' := heq
  obtain rfl : lb = lb' := heq'
  have hboth := hfirst.semicolon ";" hp (hsecond.rejoin (by simp) (by simp))
  rw [parse, htokens]
  exact buildFrom_completes hboth {} rfl rfl rfl rfl

end JobShell
