import JobShell.Proofs.Trace
import JobShell.System.Output

/-!
Programs inside a system. The system says which answers may come in a state and what they
lead to. A contract says what a program asks for and what it ends with, at every point of
every run that the system allows, whether the run ever ends or not.
-/
namespace JobShell

open Program

variable {σ α β : Type}

/-- The system does not write anything more to standard error. -/
def Event.Refused : Event → Prop
  | .call (.write fd _) answer =>
    fd = 2 ∧ (answer = .ok 0 ∨ ∃ e, answer = .error e ∧ e ≠ .interrupted ∧ e ≠ .badFile)
  | _ => False

/-- Any request that is answered at all may be answered without that. -/
theorem Event.exists_not_refused {β : Type} [hβ : Nonempty β] (request : Call β) :
    ∃ answer, ¬ (Event.call request answer).Refused := by
  obtain ⟨answer⟩ := hβ
  cases request with
  | write fd data => exact ⟨.error .badFile, by simp [Refused]⟩
  | _ => exact ⟨answer, id⟩

/-- What a program wants: an answer or a new process. -/
inductive Request : Type 1 where
  | call {β : Type} (request : Call β)
  | fork (child : Program Empty)

def Event.request : Event → Request
  | call request _ => .call request
  | fork child _ => .fork child

def Request.IsAbort : Request → Prop
  | .call .abort => True
  | _ => False

/-- Whoever aborts waits for no answer. -/
theorem Request.not_isAbort {β : Type} [hβ : Nonempty β] (request : Call β) :
    ¬ (Request.call request).IsAbort := by
  cases request with
  | abort => exact hβ.elim nofun
  | _ => exact id

/-- The request that a program makes next, if it makes one at once. -/
def Program.request? : Program α → Option Request
  | call request _ => some (.call request)
  | fork child _ => some (.fork child)
  | done _ | exit _ | loop _ _ _ => none

/-- The events `t` take the system from `s` to `s'`. -/
inductive Leads (system : σ → Event → σ → Prop) : σ → List Event → σ → Prop
  | nil {s : σ} : Leads system s [] s
  | cons {s s₁ s' : σ} {e : Event} {t : List Event} :
      system s e s₁ → Leads system s₁ t s' → Leads system s (e :: t) s'

section

variable {system : σ → Event → σ → Prop} {s s' : σ} {e : Event} {t u : List Event}

@[simp] theorem leads_nil : Leads system s [] s' ↔ s' = s := by
  constructor
  · intro h
    cases h
    rfl
  · rintro rfl
    exact .nil

@[simp] theorem leads_cons :
    Leads system s (e :: t) s' ↔ ∃ s₁, system s e s₁ ∧ Leads system s₁ t s' := by
  constructor
  · intro h
    cases h with
    | cons he ht => exact ⟨_, he, ht⟩
  · rintro ⟨s₁, he, ht⟩
    exact .cons he ht

theorem exists_leads_cons {s₁ : σ} (h : system s e s₁) (ht : ∃ s', Leads system s₁ t s') :
    ∃ s', Leads system s (e :: t) s' := by
  obtain ⟨s', ht⟩ := ht
  exact ⟨s', .cons h ht⟩

theorem leads_append :
    Leads system s (t ++ u) s' ↔ ∃ s₁, Leads system s t s₁ ∧ Leads system s₁ u s' := by
  induction t generalizing s with
  | nil => simp
  | cons e t ih =>
    simp only [List.cons_append, leads_cons, ih]
    constructor
    · rintro ⟨s₁, he, s₂, ht, hu⟩
      exact ⟨s₂, ⟨s₁, he, ht⟩, hu⟩
    · rintro ⟨s₂, ⟨s₁, he, ht⟩, hu⟩
      exact ⟨s₁, he, s₂, ht, hu⟩

theorem leads_of_same (h : ∀ e ∈ t, system s e s) : Leads system s t s := by
  induction t with
  | nil => exact .nil
  | cons e t ih =>
    exact .cons (h e List.mem_cons_self) (ih fun e' he' => h e' (List.mem_cons_of_mem e he'))

/-- What each of the events keeps, all of them keep. -/
theorem Leads.preserves (inv : σ → Prop) (h : Leads system s t s') (hs : inv s)
    (hstep : ∀ e ∈ t, ∀ s s', inv s → system s e s' → inv s') : inv s' := by
  induction h with
  | nil => exact hs
  | @cons s s₁ _ e t he _ ih =>
    refine ih (hstep e List.mem_cons_self s s₁ hs he) ?_
    intro e' he'
    exact hstep e' (List.mem_cons_of_mem e he')

/-- Where none of the events changes anything, nothing changes. -/
theorem Leads.unchanged (h : Leads system s t s')
    (hsame : ∀ e ∈ t, ∀ s', system s e s' → s' = s) : s' = s := by
  refine h.preserves (· = s) rfl ?_
  rintro e he _ s₂ rfl hstep
  exact hsame e he s₂ hstep

end

/-- In the system the program makes the exchanges `t`, which take it from `s` to `s'`, and ends
with the value `a`. -/
def RunsIn (system : σ → Event → σ → Prop) (s : σ) (p : Program α) (t : List Event) (a : α)
    (s' : σ) : Prop :=
  Runs p t a ∧ Leads system s t s'

section

variable {system : σ → Event → σ → Prop} {s s' : σ} {p : Program α} {t : List Event}

theorem runsIn_done {a b : α} :
    RunsIn system s (done a) t b s' ↔ t = [] ∧ b = a ∧ s' = s := by
  constructor
  · rintro ⟨h, hl⟩
    obtain ⟨rfl, rfl⟩ := runs_done.mp h
    exact ⟨rfl, rfl, leads_nil.mp hl⟩
  · rintro ⟨rfl, rfl, rfl⟩
    exact ⟨.refl _, .nil⟩

theorem runsIn_ask {request : Call α} {a : α} :
    RunsIn system s (ask request) t a s' ↔
      t = [.call request a] ∧ system s (.call request a) s' := by
  constructor
  · rintro ⟨h, hl⟩
    obtain rfl := runs_ask.mp h
    exact ⟨rfl, by simpa using hl⟩
  · rintro ⟨rfl, h⟩
    exact ⟨runs_ask.mpr rfl, .cons h .nil⟩

theorem runsIn_bind {f : α → Program β} {b : β} :
    RunsIn system s (p.bind f) t b s' ↔ ∃ t₁ t₂ a s₁, t = t₁ ++ t₂ ∧
      RunsIn system s p t₁ a s₁ ∧ RunsIn system s₁ (f a) t₂ b s' := by
  constructor
  · rintro ⟨h, hl⟩
    obtain ⟨t₁, t₂, a, rfl, hp, hf⟩ := runs_bind.mp h
    obtain ⟨s₁, hl₁, hl₂⟩ := leads_append.mp hl
    exact ⟨t₁, t₂, a, s₁, rfl, ⟨hp, hl₁⟩, hf, hl₂⟩
  · rintro ⟨t₁, t₂, a, s₁, rfl, ⟨hp, hl₁⟩, hf, hl₂⟩
    exact ⟨runs_bind.mpr ⟨t₁, t₂, a, rfl, hp, hf⟩, leads_append.mpr ⟨s₁, hl₁, hl₂⟩⟩

end

namespace Program

/-- At no point does the program ask for anything but `only`. -/
def Asks (only : Request → Prop) (p : Program α) : Prop :=
  ∀ t q r, Steps p t q → q.request? = some r → only r

section

variable {only : Request → Prop} {p q : Program α} {t : List Event}

theorem request?_bind {f : α → Program β} {r : Request}
    (h : (p.bind f).request? = some r) :
    p.request? = some r ∨ ∃ a, p = done a ∧ (f a).request? = some r := by
  cases p with
  | done a => exact .inr ⟨a, rfl, h⟩
  | call request next => exact .inl h
  | fork child next => exact .inl h
  | exit status => cases h
  | loop body state next => cases h

/-- Before an exchange the program comes to the request for it. -/
theorem Steps.request? {e : Event} (h : Steps p [e] q) :
    ∃ p', Steps p [] p' ∧ p'.request? = some e.request := by
  generalize ht : [e] = t at h
  induction h with
  | refl p => cases ht
  | call answer _ _ =>
    obtain ⟨rfl, -⟩ := List.cons.inj ht
    exact ⟨_, .refl _, rfl⟩
  | fork answer _ _ =>
    obtain ⟨rfl, -⟩ := List.cons.inj ht
    exact ⟨_, .refl _, rfl⟩
  | loop _ ih =>
    obtain ⟨p', hp, hr⟩ := ih ht
    exact ⟨p', .loop hp, hr⟩

@[simp] theorem asks_done (a : α) : Asks only (done a) := by
  intro t q r h hr
  cases h
  cases hr

@[simp] theorem asks_exit (status : Status) : Asks only (exit status : Program α) := by
  intro t q r h hr
  cases h
  cases hr

@[simp] theorem asks_ask {request : Call α} : Asks only (ask request) ↔ only (.call request) := by
  constructor
  · intro h
    exact h [] _ _ (.refl _) rfl
  · intro h t q r hs hr
    cases hs with
    | refl _ =>
      cases hr
      exact h
    | call answer hs =>
      cases hs
      cases hr

theorem Asks.mono {only' : Request → Prop} (h : Asks only p) (ho : ∀ r, only r → only' r) :
    Asks only' p :=
  fun t q r hs hr => ho r (h t q r hs hr)

theorem Asks.bind {f : α → Program β} (h : Asks only p) (hf : ∀ a, Asks only (f a)) :
    Asks only (p.bind f) := by
  intro t q r hs hr
  obtain ⟨q', hq, rfl⟩ | ⟨t₁, t₂, a, rfl, hp, hs⟩ := steps_bind.mp hs
  · obtain hr | ⟨a, rfl, hr⟩ := request?_bind hr
    · exact h _ _ _ hq hr
    · exact hf a _ _ _ (.refl _) hr
  · exact hf a _ _ _ hs hr

@[simp] theorem asks_start {child : Program Empty} :
    Asks only (start child) ↔ only (.fork child) := by
  constructor
  · intro h
    exact h [] _ _ (.refl _) rfl
  · intro h t q r hs hr
    cases hs with
    | refl _ =>
      cases hr
      exact h
    | fork answer hs =>
      cases hs
      cases hr

@[simp] theorem asks_retry {request : Call (Except Errno β)} :
    Asks only (retry request) ↔ only (.call request) := by
  constructor
  · intro h
    exact h [] _ _ (.retry (.refl _)) rfl
  · intro h t q r hs hr
    obtain ⟨n, ⟨-, rfl | rfl⟩ | ⟨a, -, rfl, -⟩⟩ := steps_retry hs
    · cases hr
    · cases hr
      exact h
    · cases hr

theorem Asks.events (h : Asks only p) (hs : Steps p t q) : ∀ e ∈ t, only e.request := by
  induction hs with
  | refl p => simp
  | @call _ request next t q answer hs ih =>
    have hrest : Asks only (next answer) := fun _ _ _ hs' hr => h _ _ _ (.call answer hs') hr
    simp only [List.mem_cons, forall_eq_or_imp]
    exact ⟨h [] _ _ (.refl _) rfl, ih hrest⟩
  | @fork child next t q answer hs ih =>
    have hrest : Asks only (next answer) := fun _ _ _ hs' hr => h _ _ _ (.fork answer hs') hr
    simp only [List.mem_cons, forall_eq_or_imp]
    exact ⟨h [] _ _ (.refl _) rfl, ih hrest⟩
  | loop hs ih => exact ih fun _ _ _ hs' hr => h _ _ _ (.loop hs') hr

end

/-- The program can come to its end, and everything that it writes to standard error is taken. -/
def CanEnd (p : Program α) : Prop := ∃ t a, Runs p t a ∧ ∀ e ∈ t, ¬ e.Refused

section

variable {p : Program α}

theorem canEnd_done (a : α) : CanEnd (done a) := ⟨[], a, .refl _, nofun⟩

theorem CanEnd.bind {f : α → Program β} (h : CanEnd p) (hf : ∀ a, CanEnd (f a)) :
    CanEnd (p.bind f) := by
  obtain ⟨t, a, hp, ht⟩ := h
  obtain ⟨u, b, hrest, hu⟩ := hf a
  refine ⟨t ++ u, b, runs_bind.mpr ⟨t, u, a, rfl, hp, hrest⟩, ?_⟩
  exact List.forall_mem_append.mpr ⟨ht, hu⟩

end

/-- Behind the exchanges `t`, the program is not about to exit and asks for nothing but `only`.
Unless something could not be written to standard error, it does not abort and can end. -/
structure Staying (only : Request → Prop) (t : List Event) (q : Program α) : Prop where
  runs : ∀ status, q ≠ exit status
  asks : ∀ r, q.request? = some r → only r
  needed : ∀ r, q.request? = some r → r.IsAbort → ∃ e ∈ t, e.Refused
  ends : (∃ e ∈ t, e.Refused) ∨ CanEnd q

/-- At no point does the program exit, ask for anything but `only`, or abort without need, and
from everywhere else it can come to its end. -/
def Stays (only : Request → Prop) (p : Program α) : Prop :=
  ∀ t q, Steps p t q → Staying only t q

/-- At no point does the program exit. It aborts only if something could not be written to standard
error, and it can come to its end from everywhere else. -/
abbrev KeepsRunning (p : Program α) : Prop := Stays (fun _ => True) p

section

variable {only : Request → Prop} {p : Program α} {t : List Event}

theorem staying_done (a : α) : Staying only t (done a) :=
  ⟨nofun, nofun, nofun, .inr (canEnd_done a)⟩

theorem Staying.behind {q : Program α} (h : Staying only t q) (u : List Event) :
    Staying only (u ++ t) q := by
  have hlater (hrefused : ∃ e ∈ t, e.Refused) : ∃ e ∈ u ++ t, e.Refused := by
    obtain ⟨e, he, hrefused⟩ := hrefused
    exact ⟨e, List.mem_append_right u he, hrefused⟩
  exact ⟨h.runs, h.asks, fun r hr ha => hlater (h.needed r hr ha), h.ends.imp_left hlater⟩

/-- What holds of a first part holds of the whole, as long as the first part is not done. -/
theorem Staying.bind {q : Program α} {f : α → Program β} (h : Staying only t q)
    (hdone : ∀ a, q = done a → Staying only t (f a))
    (hends : (∃ e ∈ t, e.Refused) ∨ CanEnd (q.bind f)) : Staying only t (q.bind f) := by
  cases q with
  | done a => exact hdone a rfl
  | call request next => exact ⟨nofun, h.asks, h.needed, hends⟩
  | fork child next => exact ⟨nofun, h.asks, h.needed, hends⟩
  | exit status => exact absurd rfl (h.runs status)
  | loop body state next => exact ⟨nofun, nofun, nofun, hends⟩

theorem Stays.asks (h : Stays only p) : Asks only p :=
  fun t q r hs hr => (h t q hs).asks r hr

theorem Stays.mono {only' : Request → Prop} (h : Stays only p) (ho : ∀ r, only r → only' r) :
    Stays only' p := by
  intro t q hs
  have hq := h t q hs
  exact ⟨hq.runs, fun r hr => ho r (hq.asks r hr), hq.needed, hq.ends⟩

@[simp] theorem stays_done (a : α) : Stays only (done a) := by
  intro t q hs
  cases hs
  exact staying_done a

/-- Whatever the first part has come to, the second part stays behind it. -/
theorem Stays.bind_runs {f : α → Program β} (h : Stays only p)
    (hf : ∀ t a, Runs p t a → ∀ u q, Steps (f a) u q → Staying only (t ++ u) q) :
    Stays only (p.bind f) := by
  have hends {t : List Event} {q : Program α} (hq : Steps p t q) :
      (∃ e ∈ t, e.Refused) ∨ CanEnd (q.bind f) := by
    obtain hrefused | ⟨u, a, hrun, hu⟩ := (h t q hq).ends
    · exact .inl hrefused
    · -- the first part comes to its end, and the second part stays behind it
      obtain ⟨e, he, hrefused⟩ | ⟨v, b, hrest, hv⟩ := (hf _ a (hq.trans hrun) [] _ (.refl _)).ends
      · rw [List.append_nil] at he
        obtain he | he := List.mem_append.mp he
        · exact .inl ⟨e, he, hrefused⟩
        · exact absurd hrefused (hu e he)
      · exact .inr ⟨u ++ v, b, runs_bind.mpr ⟨u, v, a, rfl, hrun, hrest⟩,
          List.forall_mem_append.mpr ⟨hu, hv⟩⟩
  intro t q hs
  obtain ⟨q', hq, rfl⟩ | ⟨t₁, t₂, a, rfl, hp, hs⟩ := steps_bind.mp hs
  · refine (h t q' hq).bind ?_ (hends hq)
    rintro a rfl
    simpa using hf t a hq [] (f a) (.refl _)
  · exact hf t₁ a hp t₂ q hs

theorem Stays.bind {f : α → Program β} (h : Stays only p) (hf : ∀ a, Stays only (f a)) :
    Stays only (p.bind f) :=
  h.bind_runs fun t a _ u q hs => (hf a u q hs).behind t

theorem stays_ask [hα : Nonempty α] {request : Call α} (h : only (.call request)) :
    Stays only (ask request) := by
  obtain ⟨answer, hanswer⟩ := Event.exists_not_refused request
  intro t q hs
  cases hs with
  | refl _ =>
    refine ⟨nofun, ?_, ?_, .inr ⟨_, answer, .call answer (.refl _), by simpa using hanswer⟩⟩
    · rintro r ⟨⟩
      exact h
    · rintro r ⟨⟩ ha
      exact absurd ha (Request.not_isAbort request)
  | call answer hs =>
    cases hs
    exact staying_done answer

theorem stays_start {child : Program Empty} (h : only (.fork child)) :
    Stays only (start child) := by
  intro t q hs
  cases hs with
  | refl _ =>
    refine ⟨nofun, ?_, ?_, .inr ⟨_, .ok 0, .fork (.ok 0) (.refl _), by simp [Event.Refused]⟩⟩
    · rintro r ⟨⟩
      exact h
    · rintro r ⟨⟩ ⟨⟩
  | fork answer hs =>
    cases hs
    exact staying_done answer

theorem stays_iterate {body : σ → Program (σ ⊕ β)} (h : ∀ state, Stays only (body state))
    (hends : ∀ state, CanEnd (iterate body state)) (state : σ) :
    Stays only (iterate body state) := by
  intro t q hs
  replace hs := steps_loop hs
  induction hs with
  | start => exact ⟨nofun, nofun, nofun, .inr (hends _)⟩
  | @inside state t q hs =>
    have hround := h state t q hs
    refine hround.bind ?_ (hround.ends.imp_right fun hq => hq.bind ?_)
    · rintro turned rfl
      cases turned with
      | inl state => exact ⟨nofun, nofun, nofun, .inr (hends state)⟩
      | inr value => exact staying_done value
    · intro turned
      cases turned with
      | inl state => exact hends state
      | inr value => exact canEnd_done value
  | round _ _ ih => exact ih.behind _
  | behind _ hs => exact (stays_done _ _ _ hs).behind _

theorem stays_retry {request : Call (Except Errno β)} (h : only (.call request))
    (hother : ∀ answer, ¬ (Event.call request answer).Refused := by exact fun _ => id) :
    Stays only (retry request) := by
  have hends : CanEnd (retry request) := by
    have hne : Errno.badFile ≠ .interrupted := by decide
    exact ⟨_, .error .badFile, runs_retry.mpr ⟨by simpa using hne, 0, rfl⟩, by simpa using hother _⟩
  refine stays_iterate (fun _ => (stays_ask h).bind fun answer => ?_) (fun _ => hends) ()
  cases answer with
  | ok value => exact stays_done _
  | error e =>
    dsimp only
    split <;> exact stays_done _

end

/-- From the state `s` on the program only makes requests that are allowed where it makes
them, and what it ends with satisfies `post`. -/
def Ensures (system : σ → Event → σ → Prop) (allowed : σ → Request → Prop) (s : σ)
    (p : Program α) (post : σ → α → Prop) : Prop :=
  ∀ t q s', Steps p t q → Leads system s t s' →
    (∀ r, q.request? = some r → allowed s' r) ∧ ∀ a, q = done a → post s' a

section

variable {system : σ → Event → σ → Prop} {allowed : σ → Request → Prop} {s s' : σ}
  {p : Program α} {post : σ → α → Prop}

theorem Ensures.ends {t : List Event} {a : α} (h : Ensures system allowed s p post)
    (hp : Runs p t a) (hl : Leads system s t s') : post s' a :=
  (h t _ s' hp hl).2 a rfl

theorem ensures_done {a : α} (h : post s a) : Ensures system allowed s (done a) post := by
  intro t q s' hs hl
  cases hs
  obtain rfl := leads_nil.mp hl
  exact ⟨by rintro r ⟨⟩, by rintro b ⟨⟩; exact h⟩

theorem ensures_ask {request : Call α} (ha : allowed s (.call request))
    (h : ∀ a s', system s (.call request a) s' → post s' a) :
    Ensures system allowed s (ask request) post := by
  intro t q s' hs hl
  cases hs with
  | refl _ =>
    obtain rfl := leads_nil.mp hl
    exact ⟨by rintro r ⟨⟩; exact ha, by rintro a ⟨⟩⟩
  | call answer hs =>
    cases hs
    obtain ⟨s₁, he, rfl⟩ : ∃ s₁, system s _ s₁ ∧ s' = s₁ := by simpa using hl
    exact ⟨by rintro r ⟨⟩, by rintro a ⟨⟩; exact h _ _ he⟩

theorem ensures_start {child : Program Empty} {post : σ → Except Errno Pid → Prop}
    (ha : allowed s (.fork child)) (h : ∀ a s', system s (.fork child a) s' → post s' a) :
    Ensures system allowed s (start child) post := by
  intro t q s' hs hl
  cases hs with
  | refl _ =>
    obtain rfl := leads_nil.mp hl
    exact ⟨by rintro r ⟨⟩; exact ha, by rintro a ⟨⟩⟩
  | fork answer hs =>
    cases hs
    obtain ⟨s₁, he, rfl⟩ : ∃ s₁, system s _ s₁ ∧ s' = s₁ := by simpa using hl
    exact ⟨by rintro r ⟨⟩, by rintro a ⟨⟩; exact h _ _ he⟩

/-- A call that is repeated keeps `inv` as long as it is cut short. -/
theorem ensures_retry {request : Call (Except Errno β)} {post : σ → Except Errno β → Prop}
    (inv : σ → Prop) (hs : inv s) (ha : ∀ s, inv s → allowed s (.call request))
    (hcut : ∀ s s', inv s → system s (cutShort request) s' → inv s')
    (h : ∀ s a s', inv s → a ≠ .error .interrupted → system s (.call request a) s' →
      post s' a) :
    Ensures system allowed s (retry request) post := by
  have hrepeat (n : Nat) (s s' : σ) (hs : inv s)
      (hl : Leads system s (List.replicate n (cutShort request)) s') : inv s' := by
    induction n generalizing s with
    | zero =>
      obtain rfl := leads_nil.mp hl
      exact hs
    | succ n ih =>
      obtain ⟨s₁, he, hl⟩ := leads_cons.mp hl
      exact ih s₁ (hcut s s₁ hs he) hl
  intro t q s' hst hl
  obtain ⟨n, ⟨rfl, rfl | rfl⟩ | ⟨a, hne, rfl, rfl⟩⟩ := steps_retry hst
  · exact ⟨by rintro r ⟨⟩, by rintro a ⟨⟩⟩
  · exact ⟨by rintro r ⟨⟩; exact ha _ (hrepeat n s s' hs hl), by rintro a ⟨⟩⟩
  · obtain ⟨s₁, hl, hlast⟩ := leads_append.mp hl
    obtain ⟨s₂, he, rfl⟩ : ∃ s₂, system s₁ _ s₂ ∧ s' = s₂ := by simpa using hlast
    exact ⟨by rintro r ⟨⟩, by rintro b ⟨⟩; exact h s₁ a s' (hrepeat n s s₁ hs hl) hne he⟩

theorem Ensures.mono {post' : σ → α → Prop} (h : Ensures system allowed s p post)
    (hpost : ∀ s' a, post s' a → post' s' a) : Ensures system allowed s p post' := by
  intro t q s' hs hl
  obtain ⟨ha, hp⟩ := h t q s' hs hl
  exact ⟨ha, fun a hq => hpost s' a (hp a hq)⟩

theorem Ensures.allow {allowed' : σ → Request → Prop} (h : Ensures system allowed s p post)
    (hallow : ∀ s r, allowed s r → allowed' s r) : Ensures system allowed' s p post := by
  intro t q s' hs hl
  obtain ⟨ha, hp⟩ := h t q s' hs hl
  exact ⟨fun r hr => hallow s' r (ha r hr), hp⟩

/-- What is known of complete runs may be used at the end. -/
theorem Ensures.runs (h : Ensures system allowed s p post) :
    Ensures system allowed s p fun s' a => (∃ t, Runs p t a ∧ Leads system s t s') ∧ post s' a := by
  intro t q s' hs hl
  obtain ⟨ha, hp⟩ := h t q s' hs hl
  refine ⟨ha, fun a hq => ⟨⟨t, ?_, hl⟩, hp a hq⟩⟩
  rw [hq] at hs
  exact hs

theorem Ensures.bind {f : α → Program β} {post : σ → β → Prop}
    (h : Ensures system allowed s p fun s' a => Ensures system allowed s' (f a) post) :
    Ensures system allowed s (p.bind f) post := by
  intro t q s' hs hl
  obtain ⟨q', hq, rfl⟩ | ⟨t₁, t₂, a, rfl, hp, hs⟩ := steps_bind.mp hs
  · obtain ⟨ha, hend⟩ := h t q' s' hq hl
    constructor
    · intro r hr
      obtain hr | ⟨a, rfl, hr⟩ := request?_bind hr
      · exact ha r hr
      · exact (hend a rfl [] _ s' (.refl _) .nil).1 r hr
    · intro b hb
      obtain ⟨a, rfl, hb⟩ := bind_eq_done hb
      exact (hend a rfl [] _ s' (.refl _) .nil).2 b hb
  · obtain ⟨s₁, hl₁, hl₂⟩ := leads_append.mp hl
    exact h.ends hp hl₁ t₂ q s' hs hl₂

/-- A program that asks for nothing that matters is allowed everything and leaves the
system alone. -/
theorem Asks.ensures {only : Request → Prop} (h : Asks only p)
    (hsame : ∀ s e s', only e.request → system s e s' → s' = s)
    (ha : ∀ r, only r → allowed s r) :
    Ensures system allowed s p fun s' _ => s' = s := by
  intro t q s' hs hl
  have hkeep : s' = s := hl.unchanged fun e he s₁ hstep => hsame s e s₁ (h.events hs e he) hstep
  rw [hkeep]
  exact ⟨fun r hr => ha r (h t q r hs hr), fun _ _ => rfl⟩

end

end Program

end JobShell
