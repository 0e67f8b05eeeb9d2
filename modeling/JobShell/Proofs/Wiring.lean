import JobShell.Proofs.Grammar
import JobShell.Proofs.Launching

/-!
The descriptors of a stage once it is set up. Its pipes are copied to standard input and
output, then all their ends are taken off, and then the redirections come, of which the last
for each stream counts.
-/
namespace JobShell

open Program

theorem Stream.fd_injective {s s' : Stream} (h : s.fd = s'.fd) : s = s' := by
  cases s <;> cases s' <;> first | rfl | cases h

/-- The redirection of a stream that counts. -/
def lastOn (stream : Stream) (rs : List Redirection) : Option Redirection :=
  (rs.filter fun r => r.stream = stream).getLast?

theorem lastOn_cons (stream : Stream) (r : Redirection) (rs : List Redirection) :
    lastOn stream (r :: rs) =
      (lastOn stream rs).or (if r.stream = stream then some r else none) := by
  unfold lastOn
  rw [List.filter_cons]
  by_cases h : r.stream = stream
  · simp only [h, decide_true, ↓reduceIte, List.getLast?_cons]
    cases (rs.filter fun r => r.stream = stream).getLast? <;> rfl
  · simp [h]

/-- A descriptor refers to what the redirection gave, or without one to what it did before. -/
def Lands (names : Names) (before after : Option Referent) : Option Redirection → Prop
  | none => after = before
  | some r => ∃ what, names r.target r.mode.flags what ∧ after = some what

/-- The redirections have made `U` of the table `T`. -/
structure Redirected (names : Names) (rs : List Redirection) (T U : Table) : Prop where
  streams : ∀ stream : Stream, Lands names (T stream.fd) (U stream.fd) (lastOn stream rs)
  others : ∀ fd, 3 ≤ fd → U fd = T fd

theorem Redirected.cons {names : Names} {r : Redirection} {rs : List Redirection} {T U : Table}
    {what : Referent} (hn : names r.target r.mode.flags what)
    (h : Redirected names rs (Function.update T r.stream.fd (some what)) U) :
    Redirected names (r :: rs) T U := by
  constructor
  · intro stream
    have hstream := h.streams stream
    rw [lastOn_cons]
    cases hlast : lastOn stream rs with
    | some r' => simpa [hlast, Lands] using hstream
    | none =>
      rw [hlast] at hstream
      by_cases hr : r.stream = stream
      · subst hr
        rw [if_pos rfl]
        exact ⟨what, hn, by simpa [Lands] using hstream⟩
      · have hne : stream.fd ≠ r.stream.fd := fun heq => hr (Stream.fd_injective heq).symm
        rw [if_neg hr]
        simpa [Lands, Function.update_of_ne hne] using hstream
  · intro fd hfd
    have hne : fd ≠ r.stream.fd := by
      rintro rfl
      cases hs : r.stream <;> simp [hs, Stream.fd] at hfd
    rw [h.others fd hfd, Function.update_of_ne hne]

/-- The table with a copy of `source`, if there is one, on `target`. -/
def Table.connect (T : Table) (source : Option Fd) (target : Fd) : Table :=
  source.elim T fun fd => Function.update T target (T fd)

theorem Table.connect_of_ne {T : Table} {source : Option Fd} {target fd : Fd} (h : fd ≠ target) :
    T.connect source target fd = T fd := by
  cases source with
  | none => rfl
  | some fd' => exact Function.update_of_ne h ..

@[simp] theorem Table.connect_none {T : Table} {target : Fd} : T.connect none target = T := rfl

@[simp] theorem Table.connect_some {T : Table} {source target : Fd} :
    T.connect (some source) target target = T source := Function.update_self ..

section

variable {names : Names} {allowed : Desk → Request → Prop} {d : Desk}

theorem ensures_connect {source : Option Fd} (target : Fd)
    (h : ∀ fd, source = some fd → d.table fd ≠ none) (ha : ∀ d r, ¬ r.Creates → allowed d r) :
    Ensures (Desk.Step names) allowed d (connect source target) fun d' r =>
      r = .ok () ∧ d' = { d with table := d.table.connect source target } := by
  cases source with
  | none => exact ensures_done ⟨rfl, rfl⟩
  | some fd =>
    obtain ⟨what, hwhat⟩ := Option.ne_none_iff_exists'.mp (h fd rfl)
    refine Ensures.bind ((ensures_duplicate target hwhat ha).mono ?_)
    rintro d₁ answer ⟨rfl, rfl⟩
    refine ensures_done ⟨rfl, ?_⟩
    simp [Table.connect, hwhat]

theorem ensures_applyRedirections (rs : List Redirection)
    (ha : ∀ d r, ¬ r.Creates → allowed d r) :
    Ensures (Desk.Step names) allowed d (applyRedirections rs) fun d' r =>
      r = .ok () → Redirected names rs d.table d'.table := by
  induction rs generalizing d with
  | nil => exact ensures_done fun _ => ⟨fun _ => rfl, fun _ _ => rfl⟩
  | cons r rs ih =>
    refine Ensures.bind ((ensures_applyInStage r ha).mono ?_)
    intro d₁ applied h
    cases applied with
    | error e => exact ensures_done nofun
    | ok value =>
      obtain ⟨what, hn, rfl⟩ := h
      refine ih.mono ?_
      intro d₂ result hrest hok
      exact (hrest hok).cons hn

end

/-- The descriptors of stage `i` of `count`, started from the table `T`. Standard input and
output are where the redirections put them, else on the pipes, else as in `T`, standard error is
where the redirections put it or as in `T`, and all other descriptors are as in `T`. -/
structure Wired (names : Names) (T : Table) (count i : Nat) (stage : Stage) (U : Table) :
    Prop where
  stdin : Lands names (if 0 < i then some (.readEnd (i - 1)) else T 0) (U 0)
    (lastOn .stdin stage.redirections)
  stdout : Lands names (if i + 1 < count then some (.writeEnd i) else T 1) (U 1)
    (lastOn .stdout stage.redirections)
  stderr : Lands names (T 2) (U 2) (lastOn .stderr stage.redirections)
  others : ∀ fd, 3 ≤ fd → U fd = T fd

/-- The end of a pipe that stage `i` reads from, if any. -/
def readingEnd (pipes : List PipeEnds) (i : Nat) : Option Fd :=
  if 0 < i then (pipes[i - 1]?).map Prod.fst else none

/-- The end of a pipe that stage `i` writes to, if any. -/
def writingEnd (pipes : List PipeEnds) (i : Nat) : Option Fd := (pipes[i]?).map Prod.snd

section

variable {names : Names} {T U : Table} {pipes : List PipeEnds} {count i : Nat} {stage : Stage}

theorem Laid.readingEnd (h : Laid T 0 pipes U) (hi : i < pipes.length + 1) :
    (i = 0 ∧ readingEnd pipes i = none) ∨
      0 < i ∧ ∃ fd, readingEnd pipes i = some fd ∧ fd ∈ ends pipes ∧
        U fd = some (.readEnd (i - 1)) := by
  by_cases h0 : 0 < i
  · have hat : pipes[i - 1]? = some pipes[i - 1] := List.getElem?_eq_getElem (by omega)
    have hread := h.reading (i - 1) pipes[i - 1] hat
    rw [Nat.zero_add] at hread
    refine .inr ⟨h0, _, ?_, mem_ends.mpr ⟨i - 1, _, hat, .inl rfl⟩, hread⟩
    simp [JobShell.readingEnd, h0, hat]
  · exact .inl ⟨Nat.eq_zero_of_not_pos h0, if_neg h0⟩

theorem Laid.writingEnd (h : Laid T 0 pipes U) (i : Nat) :
    (pipes.length ≤ i ∧ writingEnd pipes i = none) ∨
      i < pipes.length ∧ ∃ fd, writingEnd pipes i = some fd ∧ fd ∈ ends pipes ∧
        U fd = some (.writeEnd i) := by
  by_cases hlt : i < pipes.length
  · have hat : pipes[i]? = some pipes[i] := List.getElem?_eq_getElem hlt
    have hwrite := h.writing i pipes[i] hat
    rw [Nat.zero_add] at hwrite
    refine .inr ⟨hlt, _, ?_, mem_ends.mpr ⟨i, _, hat, .inr rfl⟩, hwrite⟩
    simp [JobShell.writingEnd, hat]
  · have hle : pipes.length ≤ i := Nat.le_of_not_lt hlt
    exact .inl ⟨hle, by simp [JobShell.writingEnd, hle]⟩

/-- A stage that has its pipes connected and all ends taken off has what it is to have before
the redirections. -/
theorem Laid.wired {V : Table} (h : Laid T 0 pipes U) (hT : ∀ fd < 3, T fd ≠ none)
    (hcount : pipes.length + 1 = count) (hi : i < count)
    (hV : Redirected names stage.redirections
      (((U.connect (JobShell.readingEnd pipes i) 0).connect
        (JobShell.writingEnd pipes i) 1).without (ends pipes)) V) :
    Wired names T count i stage V := by
  have hlow {fd : Fd} (hfd : fd < 3) : fd ∉ ends pipes := fun hmem => hT fd hfd (h.free fd hmem)
  have hkept {fd : Fd} (hfd : fd < 3) : (((U.connect (JobShell.readingEnd pipes i) 0).connect
      (JobShell.writingEnd pipes i) 1).without (ends pipes)) fd =
        (U.connect (JobShell.readingEnd pipes i) 0).connect (JobShell.writingEnd pipes i) 1 fd :=
    if_neg (hlow hfd)
  refine ⟨?_, ?_, ?_, ?_⟩
  · have hstdin := hV.streams .stdin
    rw [show Stream.stdin.fd = 0 from rfl, hkept (by decide),
      Table.connect_of_ne (by decide)] at hstdin
    obtain ⟨rfl, hnone⟩ | ⟨h0, fd, hsome, -, hread⟩ := h.readingEnd (hcount ▸ hi)
    · rw [hnone, Table.connect_none, h.same 0 (hlow (by decide))] at hstdin
      exact hstdin
    · rw [hsome, Table.connect_some, hread] at hstdin
      rw [if_pos h0]
      exact hstdin
  · have hstdout := hV.streams .stdout
    rw [show Stream.stdout.fd = 1 from rfl, hkept (by decide)] at hstdout
    obtain ⟨hlast, hnone⟩ | ⟨hlt, fd, hsome, hmem, hwrite⟩ := h.writingEnd i
    · rw [hnone, Table.connect_none, Table.connect_of_ne (by decide),
        h.same 1 (hlow (by decide))] at hstdout
      rw [if_neg (by omega)]
      exact hstdout
    · have hne : fd ≠ 0 := fun heq => hlow (by decide) (heq ▸ hmem)
      rw [hsome, Table.connect_some, Table.connect_of_ne hne, hwrite] at hstdout
      rw [if_pos (by omega)]
      exact hstdout
  · have hstderr := hV.streams .stderr
    rw [show Stream.stderr.fd = 2 from rfl, hkept (by decide), Table.connect_of_ne (by decide),
      Table.connect_of_ne (by decide), h.same 2 (hlow (by decide))] at hstderr
    exact hstderr
  · intro fd hfd
    rw [hV.others fd hfd]
    by_cases hmem : fd ∈ ends pipes
    · rw [h.free fd hmem]
      exact if_pos hmem
    · have h0 : fd ≠ 0 := Nat.ne_of_gt (Nat.lt_of_lt_of_le (by decide) hfd)
      have h1 : fd ≠ 1 := Nat.ne_of_gt (Nat.lt_of_lt_of_le (by decide) hfd)
      have hconnected : (U.connect (JobShell.readingEnd pipes i) 0).connect
          (JobShell.writingEnd pipes i) 1 fd = U fd := by
        rw [Table.connect_of_ne h1, Table.connect_of_ne h0]
      rw [← h.same fd hmem, ← hconnected]
      exact if_neg hmem

theorem ensures_setUpStage {allowed : Desk → Request → Prop} {d : Desk} (group : Option Pid)
    (h : Laid T 0 pipes d.table) (hT : ∀ fd < 3, T fd ≠ none)
    (hcount : pipes.length + 1 = count) (hi : i < count)
    (hrole : stage.role = .ofPosition i count) (ha : ∀ d r, ¬ r.Creates → allowed d r) :
    Ensures (Desk.Step names) allowed d (setUpStage i stage pipes group) fun d' r =>
      r = .ok () → Wired names T count i stage d'.table := by
  have hreading : (if stage.role.reads && decide (0 < i) then (pipes[i - 1]?).map Prod.fst
      else none) = JobShell.readingEnd pipes i := by
    simp [hrole, PipeRole.reads_ofPosition i count hi, JobShell.readingEnd]
  have hwriting : (if stage.role.writes then (pipes[i]?).map Prod.snd else none) =
      JobShell.writingEnd pipes i := by
    rw [hrole, PipeRole.writes_ofPosition i count hi, JobShell.writingEnd]
    split
    · rfl
    · have hle : pipes.length ≤ i := by simp_all; omega
      simp [hle]
  have hgroup : Plain (ask (.setGroup 0 (group.getD 0))) := asks_ask.mpr ⟨id, id⟩
  unfold setUpStage
  refine Ensures.bind ((hgroup.ensures ha).mono ?_)
  rintro d₁ - rfl
  dsimp only
  rw [hreading, hwriting]
  refine Ensures.bind
    ((((within_setDefaults childDefaultSignals).plain (by decide)).ensures ha).mono ?_)
  rintro d₂ reset rfl
  cases reset with
  | error e => exact ensures_done nofun
  | ok value =>
    have hopen : ∀ fd, JobShell.readingEnd pipes i = some fd → d₂.table fd ≠ none := by
      obtain ⟨-, hnone⟩ | ⟨-, fd, hsome, hmem, -⟩ := h.readingEnd (hcount ▸ hi)
      · simp [hnone]
      · rintro fd' hfd'
        obtain rfl : fd = fd' := by simpa [hsome] using hfd'
        exact h.ne_none hmem
    refine Ensures.bind ((ensures_connect 0 hopen ha).mono ?_)
    rintro d₃ connected ⟨rfl, rfl⟩
    have hopen' : ∀ fd, JobShell.writingEnd pipes i = some fd →
        d₂.table.connect (JobShell.readingEnd pipes i) 0 fd ≠ none := by
      obtain ⟨-, hnone⟩ | ⟨-, fd, hsome, hmem, -⟩ := h.writingEnd i
      · simp [hnone]
      · rintro fd' hfd'
        obtain rfl : fd = fd' := by simpa [hsome] using hfd'
        have hne : fd ≠ 0 := by
          rintro rfl
          exact hT 0 (by decide) (h.free 0 hmem)
        rw [Table.connect_of_ne hne]
        exact h.ne_none hmem
    refine Ensures.bind ((ensures_connect 1 hopen' ha).mono ?_)
    rintro d₄ connected ⟨rfl, rfl⟩
    refine Ensures.bind ((ensures_closePipes pipes ha).mono ?_)
    rintro d₅ - rfl
    refine (ensures_applyRedirections stage.redirections ha).mono ?_
    intro d₆ result hV hok
    exact h.wired hT hcount hi (hV hok)

end

end JobShell
