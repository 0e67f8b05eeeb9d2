import JobShell.CommandList.Builder

/-!
The grammar of command lists, and that the builder accepts exactly what it allows. A list
is flattened into tokens stage by stage; words and redirections of a stage may be mixed in
any way, and behind a last `;` or `&` there may be redirections that belong to nothing.
-/
namespace JobShell

/-- The tokens are words and redirections in any mixture, these words and these redirections. -/
inductive SpellsStage : List Token → List String → List Redirection → Prop
  | nil : SpellsStage [] [] []
  | word {ts : List Token} {argv : List String} {rs : List Redirection} (text : String) :
      SpellsStage ts argv rs → SpellsStage (⟨.word, text⟩ :: ts) (text :: argv) rs
  | redirection {ts : List Token} {argv : List String} {rs : List Redirection}
      (operator target : String) : SpellsStage ts argv rs →
      SpellsStage (⟨.redirect, operator⟩ :: ⟨.word, target⟩ :: ts) argv
        (.ofOperator operator target :: rs)

/-- The stages one after another, with a bar between neighbours. -/
inductive SpellsStages : List Token → List Stage → Prop
  | last {ts : List Token} {s : Stage} : SpellsStage ts s.argv s.redirections → SpellsStages ts [s]
  | bar {ts us : List Token} {s : Stage} {ss : List Stage} (text : String) :
      SpellsStage ts s.argv s.redirections → SpellsStages us ss →
      SpellsStages (ts ++ ⟨.pipe, text⟩ :: us) (s :: ss)

/-- The kind of token that a join is written as. The end of the line is not written. -/
def Join.kind? : Join → Option TokenKind
  | .sequence => some .sequence
  | .background => some .background
  | .and => some .and
  | .or => some .or
  | .none => Option.none

/-- The tokens write the list down: pipeline after pipeline, each followed by its join. -/
inductive Flattens : CommandList → List Token → Prop
  | ended {p : Pipeline} {ts : List Token} : SpellsStages ts p.stages → p.join = .none →
      Flattens [p] ts
  | closed {p : Pipeline} {ts tail : List Token} {rs : List Redirection} {kind : TokenKind}
      (text : String) : SpellsStages ts p.stages → p.join.kind? = some kind →
      SpellsStage tail [] rs → Flattens [p] (ts ++ ⟨kind, text⟩ :: tail)
  | next {p : Pipeline} {ps : CommandList} {ts us : List Token} {kind : TokenKind}
      (text : String) : SpellsStages ts p.stages → p.join.kind? = some kind → Flattens ps us →
      Flattens (p :: ps) (ts ++ ⟨kind, text⟩ :: us)

/-- The roles of a pipeline's stages, first to last. -/
def rolesOf : Nat → List PipeRole
  | 0 => []
  | 1 => [.none]
  | n + 2 => .writesNext :: (List.replicate n .both ++ [.readsPrevious])

structure Pipeline.WellFormed (p : Pipeline) : Prop where
  nonempty : p.stages ≠ []
  words : ∀ s ∈ p.stages, s.argv ≠ []
  roles : p.stages.map Stage.role = rolesOf p.stages.length
  unstarted : ∀ s ∈ p.stages, s.pid = none
  ungrouped : p.group = none
  unwaited : p.status = none

/-- Only the last pipeline may end with the line, and it may not end with `&&` or `||`. -/
structure CommandList.WellFormed (l : CommandList) : Prop where
  pipelines : ∀ p ∈ l, p.WellFormed
  joined : ∀ p ∈ l.dropLast, p.join ≠ .none
  last : ∀ p ∈ l.getLast?, p.join = .sequence ∨ p.join = .background ∨ p.join = .none

theorem rolesOf_eq_map (n : Nat) :
    rolesOf n = (List.range n).map fun i => PipeRole.ofPosition i n := by
  match n with
  | 0 => rfl
  | 1 => rfl
  | n + 2 =>
    apply List.ext_getElem
    · simp [rolesOf]
    · intro i hi hi'
      simp only [List.getElem_map, List.getElem_range, rolesOf, PipeRole.ofPosition]
      have hn : ¬ n + 2 ≤ 1 := by omega
      cases i with
      | zero => simp [hn]
      | succ i =>
        by_cases h : i = n
        · subst i; simp [hn]
        · have hlt : i < n := by simp [rolesOf] at hi; omega
          simp [hn, h, hlt]

@[simp] theorem length_assignRoles (ss : List Stage) : (assignRoles ss).length = ss.length := by
  simp [assignRoles]

@[simp] theorem assignRoles_eq_nil (ss : List Stage) : assignRoles ss = [] ↔ ss = [] := by
  simp [assignRoles]

theorem map_role_assignRoles (ss : List Stage) :
    (assignRoles ss).map Stage.role = rolesOf ss.length := by
  rw [rolesOf_eq_map]
  apply List.ext_getElem <;> simp [assignRoles]

theorem mem_assignRoles {s : Stage} {ss : List Stage} (h : s ∈ assignRoles ss) :
    ∃ s' ∈ ss, s = { s' with role := s.role } := by
  obtain ⟨i, hi, rfl⟩ := List.mem_mapIdx.mp h
  exact ⟨ss[i], List.getElem_mem _, rfl⟩

/-- The stage as it is while it is being written. -/
def Stage.plain (s : Stage) : Stage := { argv := s.argv, redirections := s.redirections }

@[simp] theorem plain_argv (s : Stage) : s.plain.argv = s.argv := rfl
@[simp] theorem plain_redirections (s : Stage) : s.plain.redirections = s.redirections := rfl

/-- What assigning roles does to stages as written is what a well-formed pipeline has. -/
theorem assignRoles_map_plain {p : Pipeline} (h : p.WellFormed) :
    assignRoles (p.stages.map Stage.plain) = p.stages := by
  apply List.ext_getElem
  · simp
  · intro i hi hi'
    have hr : p.stages[i].role = .ofPosition i p.stages.length := by
      have := congrArg (fun roles => roles[i]?) h.roles
      simpa [rolesOf_eq_map, hi'] using this
    have hu := h.unstarted _ (List.getElem_mem hi')
    simp [assignRoles, Stage.plain, ← hr, ← hu]

/-- The stage with more words and redirections behind its own. -/
def Stage.extend (s : Stage) (argv : List String) (rs : List Redirection) : Stage :=
  { s with argv := s.argv ++ argv, redirections := s.redirections ++ rs }

@[simp] theorem extend_nil (s : Stage) : s.extend [] [] = s := by simp [Stage.extend]

/-- The tokens carry a stage on and may write further ones behind it, all with words. -/
inductive CarriesOn : Stage → List Token → List Stage → Prop
  | last {s : Stage} {ts : List Token} {argv : List String} {rs : List Redirection} :
      SpellsStage ts argv rs → (s.extend argv rs).argv ≠ [] → CarriesOn s ts [s.extend argv rs]
  | bar {s : Stage} {ts us : List Token} {argv : List String} {rs : List Redirection}
      {ss : List Stage} (text : String) : SpellsStage ts argv rs → (s.extend argv rs).argv ≠ [] →
      CarriesOn {} us ss → CarriesOn s (ts ++ ⟨.pipe, text⟩ :: us) (s.extend argv rs :: ss)

/-- The tokens complete a draft whose open pipeline has the stages `before` and, being
written, `s`, and whose last join was `join`; the list is what they add to it. -/
inductive Completes : List Stage → Stage → Option Join → List Token → CommandList → Prop
  | tail {s : Stage} {join : Option Join} {ts : List Token} {rs : List Redirection} :
      s.argv = [] → SpellsStage ts [] rs → join ≠ some .and → join ≠ some .or →
      Completes [] s join ts []
  | ended {before ss : List Stage} {s : Stage} {join : Option Join} {ts : List Token} :
      CarriesOn s ts ss →
      Completes before s join ts [{ stages := assignRoles (before ++ ss), join := .none }]
  | closed {before ss : List Stage} {s : Stage} {join : Option Join} {next : Join}
      {kind : TokenKind} {ts us : List Token} {ps : CommandList} (text : String) :
      CarriesOn s ts ss → next.kind? = some kind → Completes [] {} (some next) us ps →
      Completes before s join (ts ++ ⟨kind, text⟩ :: us)
        ({ stages := assignRoles (before ++ ss), join := next } :: ps)

theorem CarriesOn.word {s : Stage} {text : String} {ts : List Token} {ss : List Stage}
    (h : CarriesOn (s.extend [text] []) ts ss) : CarriesOn s (⟨.word, text⟩ :: ts) ss := by
  have he (argv : List String) (rs : List Redirection) :
      (s.extend [text] []).extend argv rs = s.extend (text :: argv) rs := by
    simp [Stage.extend]
  cases h with
  | last hs hw => rw [he] at hw ⊢; exact .last (hs.word text) hw
  | bar bar hs hw hc => rw [he] at hw ⊢; exact .bar bar (hs.word text) hw hc

theorem CarriesOn.redirection {s : Stage} {operator target : String} {ts : List Token}
    {ss : List Stage} (h : CarriesOn (s.extend [] [.ofOperator operator target]) ts ss) :
    CarriesOn s (⟨.redirect, operator⟩ :: ⟨.word, target⟩ :: ts) ss := by
  have he (argv : List String) (rs : List Redirection) :
      (s.extend [] [.ofOperator operator target]).extend argv rs =
        s.extend argv (.ofOperator operator target :: rs) := by
    simp [Stage.extend]
  cases h with
  | last hs hw => rw [he] at hw ⊢; exact .last (hs.redirection operator target) hw
  | bar bar hs hw hc => rw [he] at hw ⊢; exact .bar bar (hs.redirection operator target) hw hc

variable {before ss : List Stage} {s : Stage} {join : Option Join} {ts us : List Token}
  {ps : CommandList}

theorem Completes.word {text : String} (h : Completes before (s.extend [text] []) join ts ps) :
    Completes before s join (⟨.word, text⟩ :: ts) ps := by
  cases h with
  | tail hs ht hand hor => simp [Stage.extend] at hs
  | ended hc => exact .ended hc.word
  | closed bar hc hk h => exact .closed bar hc.word hk h

theorem Completes.redirection {operator target : String}
    (h : Completes before (s.extend [] [.ofOperator operator target]) join ts ps) :
    Completes before s join (⟨.redirect, operator⟩ :: ⟨.word, target⟩ :: ts) ps := by
  cases h with
  | tail hs ht hand hor =>
    exact .tail (by simpa [Stage.extend] using hs) (ht.redirection operator target) hand hor
  | ended hc => exact .ended hc.redirection
  | closed bar hc hk h => exact .closed bar hc.redirection hk h

theorem Completes.bar {text : String} (hs : s.argv ≠ [])
    (h : Completes (before ++ [s]) {} join ts ps) :
    Completes before s join (⟨.pipe, text⟩ :: ts) ps := by
  have hc {us : List Token} {ss : List Stage} (hc : CarriesOn {} us ss) :
      CarriesOn s (⟨.pipe, text⟩ :: us) (s :: ss) := by
    have := CarriesOn.bar (s := s) text .nil (by simpa using hs) hc
    simpa using this
  generalize hb : before ++ [s] = stages at h
  generalize he : ({} : Stage) = empty at h
  cases h with
  | tail => simp at hb
  | ended h =>
    subst hb he
    have hd : Completes before s join _ _ := .ended (hc h)
    simpa using hd
  | closed bar h hk h' =>
    subst hb he
    have hd : Completes before s join _ _ := .closed bar (hc h) hk h'
    simpa using hd

/-- The list consists of what the draft has closed and of what the tokens add. -/
def Draft.Explains (d : Draft) (ts : List Token) (l : CommandList) : Prop :=
  d.sawEmpty = false ∧
    ∃ ps, l = d.closed ++ ps ∧ Completes d.stages d.current (d.lastJoin.map Prod.fst) ts ps

theorem explains_of_finish {d : Draft} {l : CommandList} (hl : l ≠ []) (h : d.finish = .ok l) :
    d.Explains [] l := by
  unfold Draft.finish at h
  split at h
  · simp at h
  · rename_i hd
    have hempty : d.sawEmpty = false := by
      split at h <;> simp at h
      cases hs : d.sawEmpty with
      | false => rfl
      | true => simp [hs] at h; exact absurd h hl
    refine ⟨hempty, ?_⟩
    by_cases hw : d.current.argv = []
    · have hstages : d.stages = [] := by simpa [Draft.danglingPipe, hw] using hd
      refine ⟨[], ?_, ?_⟩
      · split at h <;> simp_all [Draft.closePipeline]
      · rw [hstages]
        apply Completes.tail hw .nil <;> intro hj <;>
          (obtain ⟨⟨_, _⟩, hlast, rfl⟩ := Option.map_eq_some_iff.mp hj; simp [hw, hlast] at h)
    · refine ⟨[{ stages := assignRoles (d.stages ++ [d.current]), join := .none }], ?_, ?_⟩
      · split at h <;> simp_all [Draft.closePipeline]
      · have hc := CarriesOn.last (s := d.current) .nil (by simpa using hw)
        rw [extend_nil] at hc
        exact .ended hc

theorem Draft.Explains.closeAt {d : Draft} {next : Join} {kind : TokenKind} {text : String}
    {ts : List Token} {l : CommandList} (hk : next.kind? = some kind)
    (h : (d.closeAt next text).Explains ts l) : d.Explains (⟨kind, text⟩ :: ts) l := by
  obtain ⟨hempty, ps, hl, hc⟩ := h
  obtain ⟨hempty, hw⟩ : d.sawEmpty = false ∧ d.current.argv ≠ [] := by
    simpa [Draft.closeAt] using hempty
  refine ⟨hempty, { stages := assignRoles (d.stages ++ [d.current]), join := next } :: ps, ?_, ?_⟩
  · simpa [Draft.closeAt, Draft.closePipeline, hw] using hl
  · have hcur := CarriesOn.last (s := d.current) .nil (by simpa using hw)
    rw [extend_nil] at hcur
    exact .closed text (show CarriesOn d.current [] _ from hcur) hk
      (by simpa [Draft.closeAt, Draft.closePipeline, hw] using hc)

/-- Nothing but such tokens makes the builder add to a draft. -/
theorem explains_of_buildFrom {l : CommandList} (hl : l ≠ []) (d : Draft) (ts : List Token) :
    buildFrom d ts = .ok l → d.Explains ts l := by
  refine buildFrom.induct
    (fun d next text ts => buildFrom.close d next text ts = .ok l →
      ∀ kind, next.kind? = some kind → d.Explains (⟨kind, text⟩ :: ts) l)
    (fun d ts => buildFrom d ts = .ok l → d.Explains ts l)
    ?dangling ?close ?finish ?word ?redirection ?missing ?noWord ?bar ?left ?right
    ?sequence ?background ?and ?or d ts
  case dangling => intro d next text ts hd h; simp [buildFrom.close, hd] at h
  case close =>
    intro d next text ts hd ih h kind hk
    rw [buildFrom.close, if_neg hd] at h
    exact (ih h).closeAt hk
  case finish => intro d h; rw [buildFrom] at h; exact explains_of_finish hl h
  case word =>
    intro d text ts ih h
    rw [buildFrom] at h
    obtain ⟨hempty, ps, hps, hc⟩ := ih h
    exact ⟨hempty, ps, hps, Completes.word (by simpa [Draft.addWord, Stage.extend] using hc)⟩
  case redirection =>
    intro d operator target ts ih h
    rw [buildFrom] at h
    obtain ⟨hempty, ps, hps, hc⟩ := ih h
    exact ⟨hempty, ps, hps,
      Completes.redirection (by simpa [Draft.addRedirection, Stage.extend] using hc)⟩
  case missing => intro d operator ts hts h; simp [buildFrom] at h
  case noWord => intro d text ts hw h; simp [buildFrom, hw] at h
  case bar =>
    intro d text ts hw ih h
    rw [buildFrom, if_neg hw] at h
    obtain ⟨hempty, ps, hps, hc⟩ := ih h
    exact ⟨hempty, ps, hps, Completes.bar (by simpa using hw) hc⟩
  case left => intro d text ts h; simp [buildFrom] at h
  case right => intro d text ts h; simp [buildFrom] at h
  case sequence => intro d text ts ih h; rw [buildFrom] at h; exact ih h _ rfl
  case background => intro d text ts ih h; rw [buildFrom] at h; exact ih h _ rfl
  case and => intro d text ts ih h; rw [buildFrom] at h; exact ih h _ rfl
  case or => intro d text ts ih h; rw [buildFrom] at h; exact ih h _ rfl

theorem buildFrom_spellsStage {ts : List Token} {argv : List String} {rs : List Redirection}
    (h : SpellsStage ts argv rs) (d : Draft) (us : List Token) :
    buildFrom d (ts ++ us) = buildFrom { d with current := d.current.extend argv rs } us := by
  induction h generalizing d with
  | nil => simp
  | word text _ ih =>
    rw [List.cons_append, buildFrom, ih]
    simp [Draft.addWord, Stage.extend]
  | redirection operator target _ ih =>
    rw [List.cons_append, List.cons_append, buildFrom, ih]
    simp [Draft.addRedirection, Stage.extend]

/-- Reading stages leaves the last of them to be written. -/
theorem buildFrom_carriesOn {s : Stage} {ts : List Token} {ss : List Stage} (h : CarriesOn s ts ss)
    (d : Draft) (hs : d.current = s) :
    ∃ front last, ss = front ++ [last] ∧ last.argv ≠ [] ∧ ∀ us, buildFrom d (ts ++ us) =
      buildFrom { d with stages := d.stages ++ front, current := last } us := by
  induction h generalizing d with
  | @last s ts argv rs hts hw =>
    refine ⟨[], s.extend argv rs, rfl, hw, fun us => ?_⟩
    rw [buildFrom_spellsStage hts, hs]
    simp
  | @bar s ts us argv rs ss text hts hw _ ih =>
    obtain ⟨front, last, rfl, hlast, hrest⟩ :=
      ih { d with stages := d.stages ++ [s.extend argv rs], current := {} } rfl
    refine ⟨s.extend argv rs :: front, last, rfl, hlast, fun vs => ?_⟩
    rw [List.append_assoc, List.cons_append, buildFrom_spellsStage hts, hs, buildFrom,
      if_neg (by simpa using hw)]
    simpa [Draft.closeStage] using hrest vs

theorem buildFrom_join {next : Join} {kind : TokenKind} (hk : next.kind? = some kind) (d : Draft)
    (text : String) (ts : List Token) :
    buildFrom d (⟨kind, text⟩ :: ts) = buildFrom.close d next text ts := by
  cases next <;> simp [Join.kind?] at hk <;> subst hk <;> rw [buildFrom]

theorem finish_of_noWord {d : Draft} (hs : d.stages = []) (hw : d.current.argv = [])
    (hand : d.lastJoin.map Prod.fst ≠ some .and) (hor : d.lastJoin.map Prod.fst ≠ some .or)
    (hempty : d.sawEmpty = false) : d.finish = .ok d.closed := by
  unfold Draft.finish
  rw [if_neg (by simp [Draft.danglingPipe, hs])]
  split
  · rename_i hlast; simp [hlast] at hand
  · rename_i hlast; simp [hlast] at hor
  · simp [hempty, Draft.closePipeline, hw]

theorem finish_of_word {d : Draft} (hw : d.current.argv ≠ []) (hempty : d.sawEmpty = false) :
    d.finish =
      .ok (d.closed ++ [{ stages := assignRoles (d.stages ++ [d.current]), join := .none }]) := by
  simp [Draft.finish, Draft.danglingPipe, hw, hempty, Draft.closePipeline]

/-- Such tokens make the builder add to a draft what they are said to add. -/
theorem buildFrom_completes (h : Completes before s join ts ps) (d : Draft)
    (hbefore : d.stages = before) (hs : d.current = s) (hjoin : d.lastJoin.map Prod.fst = join)
    (hempty : d.sawEmpty = false) : buildFrom d ts = .ok (d.closed ++ ps) := by
  induction h generalizing d with
  | @tail s join ts rs hw hts hand hor =>
    have hfinish := buildFrom_spellsStage hts d []
    rw [List.append_nil, buildFrom] at hfinish
    rw [hfinish, List.append_nil]
    exact finish_of_noWord hbefore (by simp [hs, hw, Stage.extend]) (hjoin ▸ hand) (hjoin ▸ hor)
      hempty
  | @ended before ss s join ts hc =>
    obtain ⟨front, last, rfl, hlast, hread⟩ := buildFrom_carriesOn hc d hs
    have hfinish := hread []
    rw [List.append_nil, buildFrom] at hfinish
    have hword := finish_of_word
      (d := { d with stages := d.stages ++ front, current := last }) hlast hempty
    rw [hfinish, hword]
    simp [hbefore]
  | @closed before ss s join next kind ts us ps text hc hk _ ih =>
    obtain ⟨front, last, rfl, hlast, hread⟩ := buildFrom_carriesOn hc d hs
    have hd : ¬ Draft.danglingPipe { d with stages := d.stages ++ front, current := last } := by
      simp [Draft.danglingPipe, hlast]
    rw [hread, buildFrom_join hk, buildFrom.close, if_neg hd, ih _ (by simp [Draft.closeAt,
      Draft.closePipeline, hlast]) (by simp [Draft.closeAt, Draft.closePipeline, hlast]) rfl
      (by simp [Draft.closeAt, hempty, hlast])]
    simp [Draft.closeAt, Draft.closePipeline, hlast, hbefore]

theorem SpellsStages.of_plain {ts : List Token} {ss : List Stage} (h : SpellsStages ts ss)
    (ss' : List Stage) (he : ss'.map Stage.plain = ss.map Stage.plain) : SpellsStages ts ss' := by
  induction h generalizing ss' with
  | @last ts s hs =>
    obtain ⟨s', rfl, hp⟩ := List.map_eq_singleton_iff.mp he
    have hw : s'.argv = s.argv := by simpa using congrArg Stage.argv hp
    have hr : s'.redirections = s.redirections := by simpa using congrArg Stage.redirections hp
    exact .last (by rwa [hw, hr])
  | @bar ts us s ss text hs _ ih =>
    obtain ⟨s', ss', rfl, hp, hps⟩ := List.map_eq_cons_iff.mp he
    have hw : s'.argv = s.argv := by simpa using congrArg Stage.argv hp
    have hr : s'.redirections = s.redirections := by simpa using congrArg Stage.redirections hp
    exact .bar text (by rwa [hw, hr]) (ih ss' hps)

theorem map_plain_assignRoles (ss : List Stage) :
    (assignRoles ss).map Stage.plain = ss.map Stage.plain := by
  apply List.ext_getElem <;> simp [assignRoles, Stage.plain]

/-- Stages written from nothing are spelled, have words and are as plain as they are written. -/
theorem CarriesOn.spellsStages {ts : List Token} {ss : List Stage} (h : CarriesOn {} ts ss) :
    SpellsStages ts ss ∧ ss ≠ [] ∧ ∀ s ∈ ss, s.argv ≠ [] ∧ s.pid = none := by
  generalize he : ({} : Stage) = empty at h
  induction h with
  | last hs hw =>
    subst he
    exact ⟨.last (by simpa [Stage.extend] using hs), by simp, by simpa using ⟨hw, rfl⟩⟩
  | bar text hs hw _ ih =>
    obtain ⟨hss, -, hall⟩ := ih rfl
    subst he
    refine ⟨.bar text (by simpa [Stage.extend] using hs) hss, by simp, ?_⟩
    simpa using ⟨⟨hw, rfl⟩, hall⟩

theorem SpellsStages.carriesOn {ts : List Token} {ss : List Stage} (h : SpellsStages ts ss)
    (hw : ∀ s ∈ ss, s.argv ≠ []) : CarriesOn {} ts (ss.map Stage.plain) := by
  have he (s : Stage) : s.plain = ({} : Stage).extend s.argv s.redirections := by
    simp [Stage.plain, Stage.extend]
  induction h with
  | @last ts s hs =>
    rw [List.map_singleton, he]
    exact .last hs (by simpa [Stage.extend] using hw s (by simp))
  | @bar ts us s ss text hs _ ih =>
    rw [List.map_cons, he]
    exact .bar text hs (by simpa [Stage.extend] using hw s (by simp))
      (ih fun s hs => hw s (by simp [hs]))

/-- A pipeline closed by the builder is well formed and spelled by its tokens. -/
theorem wellFormed_assignRoles {ts : List Token} {ss : List Stage} (h : CarriesOn {} ts ss)
    (next : Join) : Pipeline.WellFormed { stages := assignRoles ss, join := next } ∧
      SpellsStages ts (assignRoles ss) := by
  obtain ⟨hs, hne, hall⟩ := h.spellsStages
  refine ⟨⟨by simpa using hne, ?_, by simp [map_role_assignRoles], ?_, rfl, rfl⟩,
    hs.of_plain _ (map_plain_assignRoles ss)⟩
  · intro s hm
    obtain ⟨s', hs', he⟩ := mem_assignRoles hm
    rw [he]
    exact (hall s' hs').1
  · intro s hm
    obtain ⟨s', hs', he⟩ := mem_assignRoles hm
    rw [he]
    exact (hall s' hs').2

theorem Flattens.ne_nil {l : CommandList} {ts : List Token} (h : Flattens l ts) : l ≠ [] := by
  cases h <;> simp

/-- What completes an empty draft is a tail without a command or a flattened list. -/
theorem flattens_of_completes (h : Completes before s join ts ps) (hbefore : before = [])
    (hs : s = {}) :
    (ps = [] ∧ (∃ rs, SpellsStage ts [] rs) ∧ join ≠ some .and ∧ join ≠ some .or) ∨
      (CommandList.WellFormed ps ∧ Flattens ps ts) := by
  induction h with
  | tail _ hts hand hor => exact .inl ⟨rfl, ⟨_, hts⟩, hand, hor⟩
  | ended hc =>
    subst hbefore hs
    obtain ⟨hp, hss⟩ := wellFormed_assignRoles hc .none
    exact .inr ⟨⟨by simpa using hp, by simp, by simp⟩, .ended hss rfl⟩
  | @closed before ss s join next kind ts us ps text hc hk _ ih =>
    subst hbefore hs
    obtain ⟨hp, hss⟩ := wellFormed_assignRoles hc next
    have hnext : next ≠ .none := by rintro rfl; simp [Join.kind?] at hk
    right
    obtain ⟨rfl, ⟨rs, htail⟩, hand, hor⟩ | ⟨hwf, hf⟩ := ih rfl rfl
    · refine ⟨⟨by simpa using hp, by simp, ?_⟩, .closed text hss hk htail⟩
      cases next <;> simp_all
    · refine ⟨⟨?_, ?_, ?_⟩, .next text hss hk hf⟩
      · simpa using ⟨hp, hwf.pipelines⟩
      · rw [List.dropLast_cons_of_ne_nil hf.ne_nil]
        simpa using ⟨hnext, hwf.joined⟩
      · rw [List.getLast?_cons_of_ne_nil hf.ne_nil]
        exact hwf.last

theorem completes_of_flattens {l : CommandList} {ts : List Token} (h : Flattens l ts)
    (hwf : CommandList.WellFormed l) (join : Option Join) : Completes [] {} join ts l := by
  have hp (p : Pipeline) (hp : p ∈ l) :
      p = { stages := assignRoles (p.stages.map Stage.plain), join := p.join } := by
    have hw := hwf.pipelines p hp
    obtain ⟨stages, next, group, status⟩ := p
    obtain rfl : group = none := hw.ungrouped
    obtain rfl : status = none := hw.unwaited
    rw [assignRoles_map_plain hw]
  induction h generalizing join with
  | @ended p ts hs hj =>
    rw [hp p (by simp), hj]
    exact .ended (hs.carriesOn (hwf.pipelines p (by simp)).words)
  | @closed p ts tail rs kind text hs hk htail =>
    have hlast := hwf.last p (by simp)
    rw [hp p (by simp)]
    refine .closed text (hs.carriesOn (hwf.pipelines p (by simp)).words) hk (.tail rfl htail ?_ ?_)
    · intro hand
      simp [Option.some.inj hand] at hlast
    · intro hor
      simp [Option.some.inj hor] at hlast
  | @next p ps ts us kind text hs hk hf ih =>
    rw [hp p (by simp)]
    refine .closed text (hs.carriesOn (hwf.pipelines p (by simp)).words) hk (ih ?_ _ ?_)
    · refine ⟨fun q hq => hwf.pipelines q (by simp [hq]), fun q hq => hwf.joined q ?_, ?_⟩
      · rw [List.dropLast_cons_of_ne_nil hf.ne_nil]
        exact List.mem_cons_of_mem _ hq
      · intro q hq
        exact hwf.last q (by rwa [List.getLast?_cons_of_ne_nil hf.ne_nil])
    · exact fun q hq => hp q (by simp [hq])

theorem wellFormed_of_build {ts : List Token} {l : CommandList} (hl : l ≠ [])
    (h : build ts = .ok l) : CommandList.WellFormed l ∧ Flattens l ts := by
  obtain ⟨-, ps, rfl, hc⟩ := explains_of_buildFrom hl {} ts h
  obtain ⟨rfl, -⟩ | hwf := flattens_of_completes hc rfl rfl
  · simp at hl
  · simpa using hwf

/-- The builder accepts exactly the flattenings of well-formed lists, each as that list. -/
theorem build_eq_ok_iff (ts : List Token) (l : CommandList) (hl : l ≠ []) :
    build ts = .ok l ↔ CommandList.WellFormed l ∧ Flattens l ts := by
  constructor
  · exact wellFormed_of_build hl
  · rintro ⟨hwf, hf⟩
    simpa [build] using buildFrom_completes (completes_of_flattens hf hwf none) {} rfl rfl rfl rfl

/-- Mixed words and redirections, an empty word and a tail that belongs to nothing. -/
theorem build_eq_ok_iff_background_tail :
    let ts : List Token := [⟨.redirect, "<"⟩, ⟨.word, "in"⟩, ⟨.word, "sort"⟩, ⟨.pipe, "|"⟩,
      ⟨.word, ""⟩, ⟨.redirect, "2>>"⟩, ⟨.word, "log"⟩, ⟨.background, "&"⟩, ⟨.redirect, ">"⟩,
      ⟨.word, "out"⟩]
    let l : CommandList := [{
      stages := [
        { argv := ["sort"], redirections := [⟨.stdin, .read, "in"⟩], role := .writesNext },
        { argv := [""], redirections := [⟨.stderr, .append, "log"⟩], role := .readsPrevious }]
      join := .background }]
    l ≠ [] ∧ build ts = .ok l ∧ CommandList.WellFormed l ∧ Flattens l ts := by
  intro ts l
  have hl : l ≠ [] := by simp [l]
  have hb : build ts = .ok l := by cbv
  exact ⟨hl, hb, (build_eq_ok_iff ts l hl).mp hb⟩

end JobShell
