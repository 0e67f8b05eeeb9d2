import JobShell.System.Program

/-!
What a program does, as the system sees it: the exchanges that it makes, one after
another, and what is left of it behind them. Any answer may come to any request; what a
system really answers is for later modules to assume.
-/
namespace JobShell

/-- A request with the answer to it, or the start of a process with the number it got. -/
inductive Event : Type 1 where
  | call {β : Type} (request : Call β) (answer : β)
  | fork (child : Program Empty) (answer : Except Errno Pid)

namespace Program

variable {α β σ : Type}

/-- Behind the exchanges `t`, the program `q` is left of `p`. -/
inductive Steps : Program α → List Event → Program α → Prop
  | refl (p : Program α) : Steps p [] p
  | call {β : Type} {request : Call β} {next : β → Program α} {t : List Event} {q : Program α}
      (answer : β) : Steps (next answer) t q →
      Steps (.call request next) (.call request answer :: t) q
  | fork {child : Program Empty} {next : Except Errno Pid → Program α} {t : List Event}
      {q : Program α} (answer : Except Errno Pid) : Steps (next answer) t q →
      Steps (.fork child next) (.fork child answer :: t) q
  | loop {β σ : Type} {body : σ → Program (σ ⊕ β)} {state : σ} {next : β → Program α}
      {t : List Event} {q : Program α} : Steps (unroll body state next) t q →
      Steps (.loop body state next) t q

/-- The program makes the exchanges `t` and ends with the value `a`. -/
def Runs (p : Program α) (t : List Event) (a : α) : Prop := Steps p t (done a)

theorem Steps.trans {p q r : Program α} {t u : List Event} (h : Steps p t q) (h' : Steps q u r) :
    Steps p (t ++ u) r := by
  induction h with
  | refl p => exact h'
  | call answer _ ih => exact .call answer (ih h')
  | fork answer _ ih => exact .fork answer (ih h')
  | loop _ ih => exact .loop (ih h')

theorem unroll_bind (body : σ → Program (σ ⊕ β)) (state : σ) (next : β → Program α)
    (f : α → Program γ) :
    (unroll body state next).bind f = unroll body state fun value => (next value).bind f := by
  rw [unroll, bind_assoc, unroll]
  congr 1
  funext turned
  cases turned <;> rfl

theorem Steps.cons_inv {p q : Program α} {e : Event} {t : List Event} (h : Steps p (e :: t) q) :
    ∃ p', Steps p [e] p' ∧ Steps p' t q := by
  generalize hl : e :: t = u at h
  induction h with
  | refl p => cases hl
  | call answer h _ =>
    obtain ⟨rfl, rfl⟩ := List.cons.inj hl
    exact ⟨_, .call answer (.refl _), h⟩
  | fork answer h _ =>
    obtain ⟨rfl, rfl⟩ := List.cons.inj hl
    exact ⟨_, .fork answer (.refl _), h⟩
  | loop _ ih =>
    obtain ⟨p', hp, ht⟩ := ih hl
    exact ⟨p', .loop hp, ht⟩

/-- At every point of a trace the program has been somewhere. -/
theorem Steps.split {p q : Program α} {t u : List Event} (h : Steps p (t ++ u) q) :
    ∃ p', Steps p t p' ∧ Steps p' u q := by
  induction t generalizing p with
  | nil => exact ⟨p, .refl p, h⟩
  | cons e t ih =>
    obtain ⟨p₁, hp, h⟩ := h.cons_inv
    obtain ⟨p', hp', h⟩ := ih h
    exact ⟨p', hp.trans hp', h⟩

theorem Steps.bind {p q : Program α} {t : List Event} (h : Steps p t q) (f : α → Program β) :
    Steps (p.bind f) t (q.bind f) := by
  induction h with
  | refl p => exact .refl _
  | call answer _ ih => exact .call answer ih
  | fork answer _ ih => exact .fork answer ih
  | loop _ ih =>
    rw [unroll_bind] at ih
    exact .loop ih

/-- A program that goes on with `f` is either still at its first part or has come to a
value and is in what `f` does with it. -/
theorem steps_bind {p : Program α} {f : α → Program β} {t : List Event} {r : Program β} :
    Steps (p.bind f) t r ↔
      (∃ q, Steps p t q ∧ r = q.bind f) ∨
        ∃ t₁ t₂ a, t = t₁ ++ t₂ ∧ Runs p t₁ a ∧ Steps (f a) t₂ r := by
  constructor
  · intro h
    generalize hb : p.bind f = b at h
    induction h generalizing p with
    | refl b => exact .inl ⟨p, .refl p, hb.symm⟩
    | @call _ request next t q answer h ih =>
      cases p with
      | done a => exact .inr ⟨[], _, a, rfl, .refl _, (show f a = _ from hb) ▸ .call answer h⟩
      | call request next =>
        cases hb
        obtain ⟨q, hq, rfl⟩ | ⟨t₁, t₂, a, rfl, hp, hf⟩ := ih rfl
        · exact .inl ⟨q, .call answer hq, rfl⟩
        · exact .inr ⟨_ :: t₁, t₂, a, rfl, .call answer hp, hf⟩
      | fork child next => cases hb
      | exit status => cases hb
      | loop body state next => cases hb
    | @fork child next t q answer h ih =>
      cases p with
      | done a => exact .inr ⟨[], _, a, rfl, .refl _, (show f a = _ from hb) ▸ .fork answer h⟩
      | fork child next =>
        cases hb
        obtain ⟨q, hq, rfl⟩ | ⟨t₁, t₂, a, rfl, hp, hf⟩ := ih rfl
        · exact .inl ⟨q, .fork answer hq, rfl⟩
        · exact .inr ⟨_ :: t₁, t₂, a, rfl, .fork answer hp, hf⟩
      | call request next => cases hb
      | exit status => cases hb
      | loop body state next => cases hb
    | @loop _ _ body state next t q h ih =>
      cases p with
      | done a => exact .inr ⟨[], _, a, rfl, .refl _, (show f a = _ from hb) ▸ .loop h⟩
      | loop body state next =>
        cases hb
        obtain ⟨q, hq, rfl⟩ | ⟨t₁, t₂, a, rfl, hp, hf⟩ := ih (unroll_bind ..)
        · exact .inl ⟨q, .loop hq, rfl⟩
        · exact .inr ⟨t₁, t₂, a, rfl, .loop hp, hf⟩
      | call request next => cases hb
      | fork child next => cases hb
      | exit status => cases hb
  · rintro (⟨q, hq, rfl⟩ | ⟨t₁, t₂, a, rfl, hp, hf⟩)
    · exact hq.bind f
    · exact (hp.bind f).trans hf

theorem bind_eq_done {p : Program α} {f : α → Program β} {b : β} (h : p.bind f = done b) :
    ∃ a, p = done a ∧ f a = done b := by
  cases p with
  | done a => exact ⟨a, rfl, h⟩
  | call request next => cases h
  | fork child next => cases h
  | exit status => cases h
  | loop body state next => cases h

@[simp] theorem runs_done {a b : α} {t : List Event} :
    Runs (done a) t b ↔ t = [] ∧ b = a := by
  constructor
  · intro h
    cases h
    exact ⟨rfl, rfl⟩
  · rintro ⟨rfl, rfl⟩
    exact .refl _

theorem runs_done_pair {a a' : α} {b b' : β} {t : List Event} :
    Runs (done (a, b)) t (a', b') ↔ t = [] ∧ a' = a ∧ b' = b := by
  rw [runs_done, Prod.mk.injEq]

@[simp] theorem not_runs_exit {status : Status} {t : List Event} {a : α} :
    ¬ Runs (exit status) t a := by
  intro h
  cases h

@[simp] theorem runs_bind {p : Program α} {f : α → Program β} {t : List Event} {b : β} :
    Runs (p.bind f) t b ↔ ∃ t₁ t₂ a, t = t₁ ++ t₂ ∧ Runs p t₁ a ∧ Runs (f a) t₂ b := by
  constructor
  · intro h
    obtain ⟨q, hq, hb⟩ | h := steps_bind.mp h
    · obtain ⟨a, rfl, ha⟩ := bind_eq_done hb.symm
      exact ⟨t, [], a, (List.append_nil t).symm, hq, ha ▸ .refl _⟩
    · exact h
  · intro h
    exact steps_bind.mpr (.inr h)

theorem runs_map {α β : Type} {p : Program α} {f : α → β} {t : List Event} {a : α}
    (h : Runs p t a) : Runs (f <$> p) t (f a) :=
  runs_bind.mpr ⟨t, [], a, (List.append_nil t).symm, h, .refl _⟩

@[simp] theorem runs_ask {request : Call α} {t : List Event} {a : α} :
    Runs (ask request) t a ↔ t = [.call request a] := by
  constructor
  · intro h
    cases h with
    | call answer h =>
      obtain ⟨rfl, rfl⟩ := runs_done.mp h
      rfl
  · rintro rfl
    exact .call a (.refl _)

@[simp] theorem runs_start {child : Program Empty} {t : List Event} {a : Except Errno Pid} :
    Runs (start child) t a ↔ t = [.fork child a] := by
  constructor
  · intro h
    cases h with
    | fork answer h =>
      obtain ⟨rfl, rfl⟩ := runs_done.mp h
      rfl
  · rintro rfl
    exact .fork a (.refl _)

/-- What has been begun goes on from where it stands. -/
theorem Steps.suffix {p p' q : Program α} {t u : List Event} (h : Steps p t p')
    (hs : Steps p (t ++ u) q) : u = [] ∨ Steps p' u q := by
  induction h with
  | refl p => exact .inr hs
  | call answer _ ih =>
    cases hs with
    | call _ hs => exact ih hs
  | fork answer _ ih =>
    cases hs with
    | fork _ hs => exact ih hs
  | loop _ ih =>
    generalize hl : _ ++ u = v at hs
    cases hs with
    | refl _ => exact .inl (List.append_eq_nil_iff.mp hl).2
    | loop hs => exact ih (hl ▸ hs)

/-- A run that is complete does not go on. -/
theorem Runs.append_nil {p q : Program α} {t u : List Event} {a : α} (h : Runs p t a)
    (hs : Steps p (t ++ u) q) : u = [] := by
  obtain hu | hu := Steps.suffix h hs
  · exact hu
  · cases hu
    rfl

theorem Runs.value_unique {p : Program α} {t : List Event} {a b : α} (h : Runs p t a)
    (h' : Runs p t b) : a = b := by
  unfold Runs at h
  generalize hd : done a = r at h
  induction h with
  | refl p =>
    subst hd
    exact (runs_done.mp h').2.symm
  | call answer _ ih =>
    cases h' with
    | call _ h' => exact ih h' hd
  | fork answer _ ih =>
    cases h' with
    | fork _ h' => exact ih h' hd
  | loop _ ih =>
    cases h' with
    | loop h' => exact ih h' hd

/-- Two complete runs of a program do not differ as far as both go. -/
theorem Runs.prefix_unique {p : Program α} {t t' u u' : List Event} {a b : α}
    (h : Runs p t a) (h' : Runs p u b) (heq : t ++ t' = u ++ u') : t = u ∧ a = b := by
  have hsame : t = u := by
    obtain ⟨v, rfl, -⟩ | ⟨v, rfl, -⟩ := List.append_eq_append_iff.mp heq
    · rw [h.append_nil h', List.append_nil]
    · rw [h'.append_nil h, List.append_nil]
  subst hsame
  exact ⟨rfl, h.value_unique h'⟩

/-- Behind a complete run of its first part, a program runs as its second part. -/
theorem Runs.bind_iff {p : Program α} {f : α → Program β} {t u : List Event} {a : α} {b : β}
    (h : Runs p t a) : Runs (p.bind f) (t ++ u) b ↔ Runs (f a) u b := by
  constructor
  · intro hrun
    obtain ⟨t', u', a', heq, hfirst, hrest⟩ := runs_bind.mp hrun
    obtain ⟨rfl, rfl⟩ := h.prefix_unique hfirst heq
    rwa [List.append_cancel_left heq]
  · exact fun hrest => runs_bind.mpr ⟨t, u, a, rfl, h, hrest⟩

/-- Of a program that has begun with a complete run of its first part, the rest is what comes
after that part, unless the run was all of it. -/
theorem Runs.steps_bind {p : Program α} {f : α → Program β} {t u : List Event} {a : α}
    {r : Program β} (h : Runs p t a) (hs : Steps (p.bind f) (t ++ u) r) :
    u = [] ∨ Steps (f a) u r :=
  (Steps.bind h f).suffix hs

/-- A loop goes round from `state` with the exchanges `t`, up to the round that ends with a
value. -/
inductive Rounds (body : σ → Program (σ ⊕ β)) : σ → List Event → β → Prop
  | last {state : σ} {t : List Event} {value : β} :
      Runs (body state) t (.inr value) → Rounds body state t value
  | round {state state' : σ} {t u : List Event} {value : β} :
      Runs (body state) t (.inl state') → Rounds body state' u value →
      Rounds body state (t ++ u) value

/-- Where a loop can be behind the exchanges `t`: about to go round, in a round, or behind the
last one. -/
inductive Looping (body : σ → Program (σ ⊕ β)) (next : β → Program α) :
    σ → List Event → Program α → Prop
  | start {state : σ} : Looping body next state [] (loop body state next)
  | inside {state : σ} {t : List Event} {q : Program (σ ⊕ β)} :
      Steps (body state) t q → Looping body next state t (q.bind (turn body next))
  | round {state state' : σ} {t u : List Event} {q : Program α} :
      Runs (body state) t (.inl state') → Looping body next state' u q →
      Looping body next state (t ++ u) q
  | behind {state : σ} {t u : List Event} {value : β} {q : Program α} :
      Runs (body state) t (.inr value) → Steps (next value) u q →
      Looping body next state (t ++ u) q

/-- Behind a round that came to `turned`: other rounds, or what comes behind the loop. -/
def Onward (body : σ → Program (σ ⊕ β)) (next : β → Program α) (t : List Event)
    (q : Program α) : σ ⊕ β → Prop
  | .inl state => Looping body next state t q
  | .inr value => Steps (next value) t q

theorem Looping.of_onward {body : σ → Program (σ ⊕ β)} {next : β → Program α} {state : σ}
    {t u : List Event} {turned : σ ⊕ β} {q : Program α} (h : Runs (body state) t turned)
    (hthen : Onward body next u q turned) : Looping body next state (t ++ u) q := by
  cases turned with
  | inl state' => exact .round h hthen
  | inr value => exact .behind h hthen

/-- In the middle of a round, the program is in that round or has completed it. -/
theorem steps_bind_turn {body : σ → Program (σ ⊕ β)} {next : β → Program α}
    {p : Program (σ ⊕ β)} {t : List Event} {q : Program α}
    (h : Steps (p.bind (turn body next)) t q) :
    (∃ q', Steps p t q' ∧ q = q'.bind (turn body next)) ∨
      ∃ t₁ t₂ turned, t = t₁ ++ t₂ ∧ Runs p t₁ turned ∧ Onward body next t₂ q turned := by
  have hbehind {value : β} {b q : Program α} {t : List Event} (hb : next value = b)
      (h : Steps b t q) : ∃ t₁ t₂ turned, t = t₁ ++ t₂ ∧
        Runs (done (.inr value)) t₁ turned ∧ Onward body next t₂ q turned := by
    subst hb
    exact ⟨[], t, .inr value, rfl, .refl _, h⟩
  generalize hb : p.bind (turn body next) = b at h
  induction h generalizing p with
  | refl b => exact .inl ⟨p, .refl p, hb.symm⟩
  | call answer h ih =>
    cases p with
    | done turned =>
      cases turned with
      | inl state => cases hb
      | inr value => exact .inr (hbehind hb (.call answer h))
    | call request next =>
      cases hb
      obtain ⟨q', hq, rfl⟩ | ⟨t₁, t₂, turned, rfl, hrun, hthen⟩ := ih rfl
      · exact .inl ⟨q', .call answer hq, rfl⟩
      · exact .inr ⟨_ :: t₁, t₂, turned, rfl, .call answer hrun, hthen⟩
    | fork child next => cases hb
    | exit status => cases hb
    | loop body' state next => cases hb
  | fork answer h ih =>
    cases p with
    | done turned =>
      cases turned with
      | inl state => cases hb
      | inr value => exact .inr (hbehind hb (.fork answer h))
    | fork child next =>
      cases hb
      obtain ⟨q', hq, rfl⟩ | ⟨t₁, t₂, turned, rfl, hrun, hthen⟩ := ih rfl
      · exact .inl ⟨q', .fork answer hq, rfl⟩
      · exact .inr ⟨_ :: t₁, t₂, turned, rfl, .fork answer hrun, hthen⟩
    | call request next => cases hb
    | exit status => cases hb
    | loop body' state next => cases hb
  | loop h ih =>
    cases p with
    | done turned =>
      cases turned with
      | inl state =>
        cases hb
        refine .inr ⟨[], _, .inl state, rfl, .refl _, ?_⟩
        obtain ⟨q', hq, rfl⟩ | ⟨t₁, t₂, turned, rfl, hrun, hthen⟩ := ih rfl
        · exact .inside hq
        · exact .of_onward hrun hthen
      | inr value => exact .inr (hbehind hb (.loop h))
    | loop body' state next =>
      cases hb
      obtain ⟨q', hq, rfl⟩ | ⟨t₁, t₂, turned, rfl, hrun, hthen⟩ := ih (unroll_bind ..)
      · exact .inl ⟨q', .loop hq, rfl⟩
      · exact .inr ⟨t₁, t₂, turned, rfl, .loop hrun, hthen⟩
    | call request next => cases hb
    | fork child next => cases hb
    | exit status => cases hb

theorem steps_loop {body : σ → Program (σ ⊕ β)} {next : β → Program α} {state : σ}
    {t : List Event} {q : Program α} (h : Steps (loop body state next) t q) :
    Looping body next state t q := by
  cases h with
  | refl _ => exact .start
  | loop h =>
    obtain ⟨q', hq, rfl⟩ | ⟨t₁, t₂, turned, rfl, hrun, hthen⟩ := steps_bind_turn h
    · exact .inside hq
    · exact .of_onward hrun hthen

theorem Looping.rounds {body : σ → Program (σ ⊕ β)} {state : σ} {t : List Event}
    {q : Program β} {value : β} (h : Looping body done state t q) (hq : q = done value) :
    Rounds body state t value := by
  induction h with
  | start => cases hq
  | inside hs =>
    obtain ⟨turned, rfl, hturn⟩ := bind_eq_done hq
    cases turned with
    | inl state => cases hturn
    | inr value' =>
      cases hturn
      exact .last hs
  | round hrun _ ih => exact .round hrun (ih hq)
  | behind hrun hs =>
    subst hq
    obtain ⟨rfl, rfl⟩ := runs_done.mp hs
    rw [List.append_nil]
    exact .last hrun

theorem runs_iterate {body : σ → Program (σ ⊕ β)} {state : σ} {t : List Event} {value : β} :
    Runs (iterate body state) t value ↔ Rounds body state t value := by
  constructor
  · exact fun h => (steps_loop h).rounds rfl
  · intro h
    induction h with
    | last h => exact .loop (runs_bind.mpr ⟨_, [], _, (List.append_nil _).symm, h, .refl _⟩)
    | round h _ ih => exact .loop (runs_bind.mpr ⟨_, _, _, rfl, h, ih⟩)

/-- A request that was cut short by a signal. -/
def cutShort (request : Call (Except Errno β)) : Event := .call request (.error .interrupted)

/-- What `retry` does in one turn. -/
def attempt (request : Call (Except Errno β)) : Program (Unit ⊕ Except Errno β) :=
  (ask request).bind fun
    | .error e => if e = .interrupted then done (.inl ()) else done (.inr (.error e))
    | .ok value => done (.inr (.ok value))

theorem retry_eq (request : Call (Except Errno β)) :
    retry request = loop (fun () => attempt request) () done := rfl

/-- What follows an attempt. -/
def again (request : Call (Except Errno β)) : Except Errno β → Program (Except Errno β)
  | .error e => if e = .interrupted then retry request else done (.error e)
  | .ok value => done (.ok value)

theorem again_of_ne {request : Call (Except Errno β)} {a : Except Errno β}
    (h : a ≠ .error .interrupted) : again request a = done a := by
  cases a with
  | ok value => rfl
  | error e => simp [again, show e ≠ .interrupted from by simpa using h]

theorem unroll_attempt (request : Call (Except Errno β)) :
    unroll (fun () => attempt request) () done = call request (again request) := by
  simp only [unroll, attempt, ask, bind, call.injEq, heq_eq_eq, true_and]
  funext answer
  cases answer with
  | ok value => rfl
  | error e =>
    by_cases h : e = .interrupted
    · simp only [h, again, ↓reduceIte, retry_eq]
      rfl
    · simp [h, again, turn]

theorem Steps.retry {request : Call (Except Errno β)} {t : List Event}
    {q : Program (Except Errno β)} (h : Steps (.call request (again request)) t q) :
    Steps (.retry request) t q := by
  rw [retry_eq]
  exact .loop (by rwa [unroll_attempt])

/-- A call that is repeated is about to be made, once more or for the first time, or it has
been answered. -/
theorem steps_retry {request : Call (Except Errno β)} {t : List Event}
    {q : Program (Except Errno β)} (h : Steps (retry request) t q) :
    ∃ n, (t = List.replicate n (cutShort request) ∧
        (q = retry request ∨ q = call request (again request))) ∨
      ∃ a, a ≠ .error .interrupted ∧ q = done a ∧
        t = List.replicate n (cutShort request) ++ [.call request a] := by
  -- the trace gets shorter with every attempt that is cut short
  induction hn : t.length using Nat.strongRecOn generalizing t with
  | ind n ih =>
    rw [retry_eq] at h
    cases h with
    | refl _ => exact ⟨0, .inl ⟨rfl, .inl rfl⟩⟩
    | loop h =>
      rw [unroll_attempt] at h
      cases h with
      | refl _ => exact ⟨0, .inl ⟨rfl, .inr rfl⟩⟩
      | @call _ _ _ t _ answer h =>
        by_cases ha : answer = .error .interrupted
        · rw [ha] at h ⊢
          obtain ⟨m, ⟨rfl, hq⟩ | ⟨a, ha, hq, rfl⟩⟩ := ih t.length (by simp [← hn]) h rfl
          · exact ⟨m + 1, .inl ⟨rfl, hq⟩⟩
          · exact ⟨m + 1, .inr ⟨a, ha, hq, rfl⟩⟩
        · rw [again_of_ne ha] at h
          cases h
          exact ⟨0, .inr ⟨answer, ha, rfl, rfl⟩⟩

/-- A call that is made again whenever it is cut short comes to any other answer, after
any number of attempts. -/
theorem runs_retry {request : Call (Except Errno β)} {t : List Event} {a : Except Errno β} :
    Runs (retry request) t a ↔
      a ≠ .error .interrupted ∧
        ∃ n, t = List.replicate n (cutShort request) ++ [.call request a] := by
  constructor
  · intro h
    obtain ⟨n, ⟨rfl, hq | hq⟩ | ⟨a', ha, hq, rfl⟩⟩ := steps_retry h
    · cases hq
    · cases hq
    · cases hq
      exact ⟨ha, n, rfl⟩
  · rintro ⟨ha, n, rfl⟩
    induction n with
    | zero =>
      refine .retry (.call a ?_)
      rw [again_of_ne ha]
      exact .refl _
    | succ n ih => exact .retry (.call _ ih)

end Program

end JobShell
