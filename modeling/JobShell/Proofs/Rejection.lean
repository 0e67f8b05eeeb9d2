import Mathlib.Data.List.DropRight
import JobShell.CommandList.Builder

/-!
Why a line is rejected or skipped. The tokens are read in units, the operator of a redirection
together with its target. Whether a unit, or the end of the line, is a violation depends on
what stands before it. The builder returns an error exactly where there is a violation, that
of the leftmost one, and otherwise no commands exactly where there are none or one is empty.
-/
namespace JobShell

/-- What the builder takes in at once. -/
inductive LineUnit where
  | word (text : String)
  | redirection (operator target : String)
  /-- The operator of a redirection that no word follows. -/
  | targetless (operator : String)
  | pipe (text : String)
  | paren (text : String)
  /-- An operator that closes a pipeline. -/
  | join (join : Join) (text : String)
  deriving DecidableEq, Repr

/-- The tokens in units, left to right. -/
def units : List Token → List LineUnit
  | [] => []
  | ⟨.word, text⟩ :: ts => .word text :: units ts
  | ⟨.redirect, operator⟩ :: ⟨.word, target⟩ :: ts => .redirection operator target :: units ts
  | ⟨.redirect, operator⟩ :: ts => .targetless operator :: units ts
  | ⟨.pipe, text⟩ :: ts => .pipe text :: units ts
  | ⟨.leftParen, text⟩ :: ts => .paren text :: units ts
  | ⟨.rightParen, text⟩ :: ts => .paren text :: units ts
  | ⟨.sequence, text⟩ :: ts => .join .sequence text :: units ts
  | ⟨.background, text⟩ :: ts => .join .background text :: units ts
  | ⟨.and, text⟩ :: ts => .join .and text :: units ts
  | ⟨.or, text⟩ :: ts => .join .or text :: units ts

namespace LineUnit

/-- The join that the unit closes a pipeline with, as it is written. -/
@[simp] def join? : LineUnit → Option (Join × String)
  | join j text => some (j, text)
  | _ => none

@[simp] def endsPipeline (u : LineUnit) : Bool := u.join?.isSome

@[simp] def isPipe : LineUnit → Bool
  | pipe _ => true
  | _ => false

@[simp] def endsStage (u : LineUnit) : Bool := u.isPipe || u.endsPipeline

end LineUnit

section

variable (before us : List LineUnit) (u : LineUnit)

/-- The units of the pipeline that is being written behind `before`. -/
def pipelineOf : List LineUnit := before.rtakeWhile fun u => !u.endsPipeline

/-- The units of the stage that is being written behind `before`. -/
def stageOf : List LineUnit := before.rtakeWhile fun u => !u.endsStage

/-- The last operator that closed a pipeline. -/
def lastJoin? : Option (Join × String) := (before.filterMap LineUnit.join?).getLast?

/-- There is an argument word. Targets of redirections are none. -/
def HasWord : Prop := ∃ text, LineUnit.word text ∈ us

def HasPipe : Prop := ∃ text, LineUnit.pipe text ∈ us

/-- Some operator closes a pipeline without a word. -/
def ClosesEmpty : Prop := ∃ before join text after,
  us = before ++ LineUnit.join join text :: after ∧ ¬ HasWord (pipelineOf before)

/-- A unit behind `before`, or the end of the line there, breaks a rule. -/
inductive Violates : Option LineUnit → SyntaxError → Prop
  | target (operator : String) : Violates (some (.targetless operator)) (.missingTarget operator)
  | paren (text : String) : Violates (some (.paren text)) (.unsupported text)
  | pipe (text : String) : ¬ HasWord (stageOf before) →
      Violates (some (.pipe text)) (.unexpected text)
  | join (join : Join) (text : String) : HasPipe (pipelineOf before) →
      ¬ HasWord (stageOf before) → Violates (some (.join join text)) (.unexpected "|")
  | ended : HasPipe (pipelineOf before) → ¬ HasWord (stageOf before) →
      Violates none (.unexpected "|")
  | operand {join : Join} {text : String} : ¬ HasWord (pipelineOf before) →
      lastJoin? before = some (join, text) → join = .and ∨ join = .or →
      Violates none (.unexpected text)

/-- There is a violation at place `i`. The end of the line is the place behind all units. -/
def ViolatedAt (i : Nat) (e : SyntaxError) : Prop :=
  i ≤ us.length ∧ Violates (us.take i) us[i]? e

/-- There is no violation left of place `n`. -/
def CleanBelow (n : Nat) : Prop := ∀ i < n, ∀ e, ¬ ViolatedAt us i e

@[simp] theorem pipelineOf_concat : pipelineOf (before ++ [u]) =
    if u.endsPipeline then [] else pipelineOf before ++ [u] := by
  rw [pipelineOf, List.rtakeWhile_concat]
  cases u.endsPipeline <;> rfl

@[simp] theorem stageOf_concat : stageOf (before ++ [u]) =
    if u.endsStage then [] else stageOf before ++ [u] := by
  rw [stageOf, List.rtakeWhile_concat]
  cases u.endsStage <;> rfl

@[simp] theorem lastJoin?_concat : lastJoin? (before ++ [u]) = u.join?.or (lastJoin? before) := by
  cases u <;> simp [lastJoin?, List.filterMap_append]

@[simp] theorem hasWord_concat : HasWord (us ++ [u]) ↔ HasWord us ∨ ∃ text, u = .word text := by
  simp only [HasWord, List.mem_append, List.mem_singleton, exists_or, eq_comm]

@[simp] theorem hasPipe_concat : HasPipe (us ++ [u]) ↔ HasPipe us ∨ ∃ text, u = .pipe text := by
  simp only [HasPipe, List.mem_append, List.mem_singleton, exists_or, eq_comm]

@[simp] theorem not_hasWord_nil : ¬ HasWord [] := by simp [HasWord]

@[simp] theorem not_hasPipe_nil : ¬ HasPipe [] := by simp [HasPipe]

@[simp] theorem closesEmpty_concat : ClosesEmpty (us ++ [u]) ↔
    ClosesEmpty us ∨ u.endsPipeline = true ∧ ¬ HasWord (pipelineOf us) := by
  constructor
  · rintro ⟨before, join, text, after, h, hw⟩
    obtain rfl | ⟨after, last, rfl⟩ := List.eq_nil_or_concat after
    · obtain ⟨rfl, hu⟩ := List.append_inj' h rfl
      obtain rfl := List.singleton_inj.mp hu
      exact .inr ⟨rfl, hw⟩
    · rw [List.concat_eq_append, ← List.cons_append, ← List.append_assoc] at h
      obtain ⟨rfl, -⟩ := List.append_inj' h rfl
      exact .inl ⟨before, join, text, after, rfl, hw⟩
  · rintro (⟨before, join, text, after, rfl, hw⟩ | ⟨hu, hw⟩)
    · exact ⟨before, join, text, after ++ [u], by simp, hw⟩
    · cases u with
      | join j text => exact ⟨us, j, text, [], rfl, hw⟩
      | _ => cases hu

theorem hasWord_of_stageOf (h : HasWord (stageOf before)) : HasWord before := by
  obtain ⟨text, ht⟩ := h
  exact ⟨text, (List.rtakeWhile_suffix _ before).subset ht⟩

end

section

variable {before us : List LineUnit} {u : LineUnit} {e : SyntaxError}

theorem violatedAt_length : ViolatedAt us us.length e ↔ Violates us none e := by
  simp [ViolatedAt]

theorem violatedAt_append : ViolatedAt (before ++ u :: us) before.length e ↔
    Violates before (some u) e := by
  simp [ViolatedAt]

/-- A unit that is no violation moves the first place that can be one. -/
theorem CleanBelow.concat (h : CleanBelow (before ++ u :: us) before.length)
    (hu : ∀ e, ¬ Violates before (some u) e) :
    CleanBelow ((before ++ [u]) ++ us) (before ++ [u]).length := by
  rw [List.append_assoc, List.singleton_append]
  intro i hi e
  rw [List.length_append, List.length_singleton] at hi
  by_cases hlt : i < before.length
  · exact h i hlt e
  · obtain rfl : i = before.length := by omega
    rw [violatedAt_append]
    exact hu e

/-- What the builder returns for a line of these units: the error of the leftmost violation,
the only one at its place, or else a list that is empty for the two reasons only. -/
def Judged (us : List LineUnit) : Except SyntaxError CommandList → Prop
  | .error e => ∃ i, CleanBelow us i ∧ ∀ e', ViolatedAt us i e' ↔ e' = e
  | .ok l => (∀ i e, ¬ ViolatedAt us i e) ∧ (l = [] ↔ ¬ HasWord us ∨ ClosesEmpty us)

theorem judged_error (h : CleanBelow (before ++ u :: us) before.length)
    (hu : Violates before (some u) e) : Judged (before ++ u :: us) (.error e) := by
  refine ⟨before.length, h, fun e' => ?_⟩
  rw [violatedAt_append]
  constructor
  · intro hu'
    cases hu <;> cases hu' <;> rfl
  · rintro rfl
    exact hu

end

/-- The draft is what has become of the units `before`, among which there is no violation. -/
structure Draft.Follows (d : Draft) (before : List LineUnit) : Prop where
  word : d.current.argv ≠ [] ↔ HasWord (stageOf before)
  bar : d.stages ≠ [] ↔ HasPipe (pipelineOf before)
  command : HasWord (pipelineOf before) ↔ d.stages ≠ [] ∨ d.current.argv ≠ []
  lastJoin : d.lastJoin = lastJoin? before
  sawEmpty : d.sawEmpty = true ↔ ClosesEmpty before
  anything : d.sawEmpty = false →
    (HasWord before ↔ d.closed ≠ [] ∨ d.stages ≠ [] ∨ d.current.argv ≠ [])

namespace Draft.Follows

variable {d : Draft} {before : List LineUnit}

theorem start : Draft.Follows {} [] := by
  constructor <;> simp [stageOf, pipelineOf, lastJoin?, ClosesEmpty]

theorem danglingPipe_iff (h : d.Follows before) : d.danglingPipe = true ↔
    HasPipe (pipelineOf before) ∧ ¬ HasWord (stageOf before) := by
  rw [← h.word, ← h.bar]
  simp [Draft.danglingPipe]

theorem addWord (h : d.Follows before) (text : String) :
    (d.addWord text).Follows (before ++ [.word text]) where
  word := by simp [Draft.addWord]
  bar := by simp [Draft.addWord, h.bar]
  command := by simp [Draft.addWord]
  lastJoin := by simp [Draft.addWord, h.lastJoin]
  sawEmpty := by simp [Draft.addWord, h.sawEmpty]
  anything := by simp [Draft.addWord]

theorem addRedirection (h : d.Follows before) (operator target : String) :
    (d.addRedirection (.ofOperator operator target)).Follows
      (before ++ [.redirection operator target]) where
  word := by simpa [Draft.addRedirection] using h.word
  bar := by simpa [Draft.addRedirection] using h.bar
  command := by simpa [Draft.addRedirection] using h.command
  lastJoin := by simp [Draft.addRedirection, h.lastJoin]
  sawEmpty := by simp [Draft.addRedirection, h.sawEmpty]
  anything := by simpa [Draft.addRedirection] using h.anything

theorem closeStage (h : d.Follows before) (hw : HasWord (stageOf before)) (text : String) :
    d.closeStage.Follows (before ++ [.pipe text]) where
  word := by simp [Draft.closeStage]
  bar := by simp [Draft.closeStage]
  command := by simpa [Draft.closeStage] using h.command.mpr (.inr (h.word.mpr hw))
  lastJoin := by simp [Draft.closeStage, h.lastJoin]
  sawEmpty := by simp [Draft.closeStage, h.sawEmpty]
  anything := by simpa [Draft.closeStage] using fun _ => hasWord_of_stageOf before hw

/-- An operator closes a pipeline without a word exactly where no word is being written. -/
theorem closeAt (h : d.Follows before) (hd : d.danglingPipe = false) (join : Join)
    (text : String) : (d.closeAt join text).Follows (before ++ [.join join text]) := by
  have hstages : (d.closeAt join text).stages = [] := by
    by_cases hw : d.current.argv = []
    · simpa [Draft.closeAt, Draft.closePipeline, hw, Draft.danglingPipe] using hd
    · simp [Draft.closeAt, Draft.closePipeline, hw]
  have hcurrent : (d.closeAt join text).current.argv = [] := by
    by_cases hw : d.current.argv = [] <;> simp [Draft.closeAt, Draft.closePipeline, hw]
  have hcommand : d.current.argv = [] ↔ ¬ HasWord (pipelineOf before) := by
    rw [h.command]
    simp only [Draft.danglingPipe, Bool.and_eq_false_imp] at hd
    constructor
    · intro hw
      simpa [hw] using hd
    · intro hw
      simpa using fun hc => hw (.inr hc)
  constructor
  · simp [hcurrent]
  · simp [hstages]
  · simp [hstages, hcurrent]
  · simp [Draft.closeAt]
  · simp [Draft.closeAt, h.sawEmpty, hcommand]
  · intro hempty
    obtain ⟨-, hw⟩ : d.sawEmpty = false ∧ d.current.argv ≠ [] := by
      simpa [Draft.closeAt] using hempty
    have hbefore : HasWord before := hasWord_of_stageOf before (h.word.mp hw)
    simp [hbefore, Draft.closeAt, Draft.closePipeline, hw]

/-- The line ends here. -/
theorem finish (h : d.Follows before) (hclean : CleanBelow before before.length) :
    Judged before d.finish := by
  have hend : (∀ e, ¬ Violates before none e) → ∀ i e, ¬ ViolatedAt before i e := by
    rintro hend i e ⟨hi, hv⟩
    obtain hlt | rfl := Nat.lt_or_eq_of_le hi
    · exact hclean i hlt e ⟨hi, hv⟩
    · exact hend e (violatedAt_length.mp ⟨hi, hv⟩)
  have herror {e : SyntaxError} (he : Violates before none e) : Judged before (.error e) := by
    refine ⟨before.length, hclean, fun e' => ?_⟩
    rw [violatedAt_length]
    constructor
    · -- a pipeline with a bar has a word before it
      have hword (hbar : HasPipe (pipelineOf before)) : HasWord (pipelineOf before) :=
        h.command.mpr (.inl (h.bar.mpr hbar))
      intro he'
      cases he with
      | ended hbar hw =>
        cases he' with
        | ended _ _ => rfl
        | operand hnone _ _ => exact absurd (hword hbar) hnone
      | operand hnone hlast _ =>
        cases he' with
        | ended hbar _ => exact absurd (hword hbar) hnone
        | operand _ hlast' _ => simp_all
    · rintro rfl
      exact he
  unfold Draft.finish
  split
  · rename_i hd
    obtain ⟨hbar, hw⟩ := h.danglingPipe_iff.mp hd
    exact herror (.ended hbar hw)
  · rename_i hd
    have hstages : d.current.argv = [] → d.stages = [] := by
      simpa [Draft.danglingPipe, ← imp_iff_not_or, not_imp_not] using hd
    have hnoWord (hw : d.current.argv.isEmpty = true) : ¬ HasWord (pipelineOf before) := by
      rw [List.isEmpty_iff] at hw
      simp [h.command, hw, hstages hw]
    split
    · rename_i hw hlast
      exact herror (.operand (hnoWord hw) (h.lastJoin ▸ hlast) (.inl rfl))
    · rename_i hw hlast
      exact herror (.operand (hnoWord hw) (h.lastJoin ▸ hlast) (.inr rfl))
    · rename_i hand hor
      refine ⟨hend ?_, ?_⟩
      · intro e he
        cases he with
        | ended hbar hw => exact hd (h.danglingPipe_iff.mpr ⟨hbar, hw⟩)
        | @operand join text hw hlast hjoin =>
          rw [h.command] at hw
          have hw : d.current.argv.isEmpty = true := by simpa using fun hc => hw (.inr hc)
          rw [← h.lastJoin] at hlast
          obtain rfl | rfl := hjoin
          · exact hand text hw hlast
          · exact hor text hw hlast
      · split
        · rename_i hempty
          simp [h.sawEmpty.mp hempty]
        · rename_i hempty
          rw [Bool.not_eq_true] at hempty
          have hnone : ¬ ClosesEmpty before := by simp [← h.sawEmpty, hempty]
          simp only [h.anything hempty, hnone, or_false]
          by_cases hw : d.current.argv = []
          · simp [Draft.closePipeline, hw, hstages hw]
          · simp [Draft.closePipeline, hw]

end Draft.Follows

/-- Behind any units that the draft has followed, the units `us` are judged to give this result. -/
def Draft.Judges (d : Draft) (us : List LineUnit) (result : Except SyntaxError CommandList) : Prop :=
  ∀ before, d.Follows before → CleanBelow (before ++ us) before.length →
    Judged (before ++ us) result

namespace Draft

variable {d d' : Draft} {u : LineUnit} {us : List LineUnit} {e : SyntaxError}
  {result : Except SyntaxError CommandList}

/-- The draft takes in a unit that is no violation. -/
theorem Judges.behind (h : d'.Judges us result)
    (hfollows : ∀ before, d.Follows before → d'.Follows (before ++ [u]))
    (hfine : ∀ before e, d.Follows before → ¬ Violates before (some u) e) :
    d.Judges (u :: us) result := by
  intro before hd hclean
  have hrest := h _ (hfollows before hd) (hclean.concat fun e => hfine before e hd)
  simpa using hrest

theorem judges_error (h : ∀ before, d.Follows before → Violates before (some u) e) :
    d.Judges (u :: us) (.error e) :=
  fun before hd hclean => judged_error hclean (h before hd)

theorem judges_finish (d : Draft) : d.Judges [] d.finish := by
  intro before hd hclean
  simpa using hd.finish (by simpa using hclean)

/-- A bar ends a stage that has a word. -/
theorem judges_bar (text : String)
    (h : d.current.argv.isEmpty = false → d.closeStage.Judges us result) :
    d.Judges (.pipe text :: us)
      (if d.current.argv.isEmpty then .error (.unexpected text) else result) := by
  split
  · rename_i hempty
    refine judges_error fun before hd => .pipe text ?_
    simpa [← hd.word] using hempty
  · rename_i hword
    have hhas {before : List LineUnit} (hd : d.Follows before) : HasWord (stageOf before) := by
      simpa [← hd.word] using hword
    refine (h (by simpa using hword)).behind (fun before hd => hd.closeStage (hhas hd) text) ?_
    rintro before e hd ⟨⟩
    rename_i hnone
    exact hnone (hhas hd)

/-- An operator closes a pipeline that does not end in a bar. -/
theorem judges_close (join : Join) (text : String)
    (h : d.danglingPipe = false → (d.closeAt join text).Judges us result) :
    d.Judges (.join join text :: us)
      (if d.danglingPipe then .error (.unexpected "|") else result) := by
  split
  · rename_i hdangling
    refine judges_error fun before hd => ?_
    obtain ⟨hbar, hnone⟩ := hd.danglingPipe_iff.mp hdangling
    exact .join join text hbar hnone
  · rename_i hclosed
    rw [Bool.not_eq_true] at hclosed
    refine (h hclosed).behind (fun before hd => hd.closeAt hclosed join text) ?_
    rintro before e hd ⟨⟩
    rename_i hbar hnone
    exact absurd (hd.danglingPipe_iff.mpr ⟨hbar, hnone⟩) (by simp [hclosed])

end Draft

/-- Whatever the builder has read without a violation, it judges the whole line rightly. -/
theorem judges_buildFrom (d : Draft) (ts : List Token) : d.Judges (units ts) (buildFrom d ts) := by
  refine buildFrom.induct
    (fun d join text ts =>
      d.Judges (.join join text :: units ts) (buildFrom.close d join text ts))
    (fun d ts => d.Judges (units ts) (buildFrom d ts))
    ?dangling ?close ?finish ?word ?redirection ?missing ?noWord ?bar ?left ?right
    ?sequence ?background ?and ?or d ts
  case dangling =>
    intro d join text ts hd
    rw [buildFrom.close]
    refine Draft.judges_close join text fun hclosed => ?_
    cases hd.symm.trans hclosed
  case close =>
    intro d join text ts _ ih
    rw [buildFrom.close]
    exact Draft.judges_close join text fun _ => ih
  case finish =>
    intro d
    rw [buildFrom]
    exact d.judges_finish
  case word =>
    intro d text ts ih
    rw [buildFrom, units]
    exact ih.behind (fun _ hd => hd.addWord text) fun _ _ _ => nofun
  case redirection =>
    intro d operator target ts ih
    rw [buildFrom, units]
    exact ih.behind (fun _ hd => hd.addRedirection operator target) fun _ _ _ => nofun
  case missing =>
    intro d operator ts hts
    have hunits : units (⟨.redirect, operator⟩ :: ts) = .targetless operator :: units ts := by
      rw [units]
      exact hts
    have hbuild : buildFrom d (⟨.redirect, operator⟩ :: ts) =
        .error (.missingTarget operator) := by
      rw [buildFrom]
      exact hts
    rw [hunits, hbuild]
    exact Draft.judges_error fun _ _ => .target operator
  case noWord =>
    intro d text ts hw
    rw [buildFrom, units]
    refine Draft.judges_bar text fun hword => ?_
    cases hw.symm.trans hword
  case bar =>
    intro d text ts _ ih
    rw [buildFrom, units]
    exact Draft.judges_bar text fun _ => ih
  case left =>
    intro d text ts
    rw [buildFrom, units]
    exact Draft.judges_error fun _ _ => .paren text
  case right =>
    intro d text ts
    rw [buildFrom, units]
    exact Draft.judges_error fun _ _ => .paren text
  case sequence | background | and | or =>
    intro d text ts ih
    rw [buildFrom, units]
    exact ih

/-- A line is rejected exactly if there is a violation in it, for the leftmost one, and skipped
exactly if there is none and it has no argument word or an operator closes a pipeline without
one. -/
theorem build_rejects_leftmost (ts : List Token) :
    (∀ e, build ts = .error e ↔
      ∃ i, ViolatedAt (units ts) i e ∧ ∀ j < i, ∀ e', ¬ ViolatedAt (units ts) j e') ∧
    ((∃ e, build ts = .error e) ↔ ∃ i e, ViolatedAt (units ts) i e) ∧
    (build ts = .ok [] ↔ (∀ i e, ¬ ViolatedAt (units ts) i e) ∧
      (¬ HasWord (units ts) ∨ ClosesEmpty (units ts))) := by
  have h : Judged (units ts) (build ts) :=
    judges_buildFrom {} ts [] .start (by simp [CleanBelow])
  cases hb : build ts with
  | error e =>
    rw [hb] at h
    obtain ⟨i, hclean, hi⟩ := h
    have he : ViolatedAt (units ts) i e := (hi e).mpr rfl
    refine ⟨fun e' => ?_, ⟨fun _ => ⟨i, e, he⟩, fun _ => ⟨e, rfl⟩⟩, ?_⟩
    · constructor
      · rintro ⟨⟩
        exact ⟨i, he, hclean⟩
      · rintro ⟨j, hj, hleft⟩
        obtain hlt | rfl | hgt := Nat.lt_trichotomy i j
        · exact absurd he (hleft i hlt e)
        · rw [(hi e').mp hj]
        · exact absurd hj (hclean j hgt e')
    · simp only [reduceCtorEq, false_iff, not_and]
      exact fun hnone => absurd he (hnone i e)
  | ok l =>
    rw [hb] at h
    obtain ⟨hclean, hl⟩ := h
    simp [hclean, hl]

/-- An empty command early in the line only matters if nothing behind it is wrong. -/
example : build [⟨.sequence, ";"⟩, ⟨.word, "a"⟩, ⟨.or, "||"⟩, ⟨.redirect, ">"⟩, ⟨.word, "f"⟩] =
    .error (.unexpected "||") := by cbv

end JobShell
