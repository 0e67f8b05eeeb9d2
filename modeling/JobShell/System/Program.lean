import JobShell.System.Call

/-!
What a process runs: a tree of system calls, each followed by what is done with the
answer. A new process is started with a program of its own, and an unbounded loop is
a node of its own, so that every program is a finite piece of data although its run
may not end.

Programs form a lawful monad: `bind` puts the rest behind every value a program ends
with.
-/
namespace JobShell

inductive Program : Type → Type 1 where
  /-- The program has come to its value. -/
  | done {α : Type} (value : α) : Program α
  | call {α β : Type} (request : Call β) (next : β → Program α) : Program α
  /-- Starts a process. The caller learns its number. -/
  | fork {α : Type} (child : Program Empty) (next : Except Errno Pid → Program α) : Program α
  /-- Ends the process. -/
  | exit {α : Type} (status : Status) : Program α
  /-- Runs `body` until it answers with a value for `next`. -/
  | loop {α β σ : Type} (body : σ → Program (σ ⊕ β)) (state : σ) (next : β → Program α) :
      Program α

namespace Program

def bind {α β : Type} : Program α → (α → Program β) → Program β
  | done value, f => f value
  | call request next, f => call request fun answer => (next answer).bind f
  | fork child next, f => fork child fun answer => (next answer).bind f
  | exit status, _ => exit status
  | loop body state next, f => loop body state fun value => (next value).bind f

instance : Monad Program where
  pure := done
  bind := bind

@[simp] theorem pure_eq (a : α) : (pure a : Program α) = done a := rfl
@[simp] theorem bind_eq (p : Program α) (f : α → Program β) : p >>= f = p.bind f := rfl
@[simp] theorem done_bind (a : α) (f : α → Program β) : (done a).bind f = f a := rfl
@[simp] theorem exit_bind (status : Status) (f : α → Program β) :
    (exit status : Program α).bind f = exit status := rfl

theorem bind_done (p : Program α) : p.bind done = p := by
  induction p with
  | done => rfl
  | exit => rfl
  | call request next ih => simp only [bind, ih]
  | fork child next _ ih => simp only [bind, ih]
  | loop body state next _ ih => simp only [bind, ih]

theorem bind_assoc (p : Program α) (f : α → Program β) (g : β → Program γ) :
    (p.bind f).bind g = p.bind fun a => (f a).bind g := by
  induction p with
  | done => rfl
  | exit => rfl
  | call request next ih => simp only [bind, ih]
  | fork child next _ ih => simp only [bind, ih]
  | loop body state next _ ih => simp only [bind, ih]

instance : LawfulMonad Program := LawfulMonad.mk' Program
  (fun p => bind_done p)
  (fun _ _ => rfl)
  bind_assoc

/-- Makes one system call. -/
def ask (request : Call β) : Program β := call request done

/-- Ends the process by SIGABRT. -/
def abort : Program α := call .abort nofun

@[simp] theorem abort_bind (f : α → Program β) : (abort : Program α).bind f = abort :=
  congrArg (call Call.abort) (funext nofun)

/-- Starts a process that runs `child`. -/
def start (child : Program Empty) : Program (Except Errno Pid) := fork child done

/-- Runs `body` on a state until it answers with a value. -/
def iterate (body : σ → Program (σ ⊕ β)) (state : σ) : Program β := loop body state done

/-- One turn of a loop: another state goes round again, a value goes on to `next`. -/
def turn (body : σ → Program (σ ⊕ β)) (next : β → Program α) : σ ⊕ β → Program α
  | .inl state => loop body state next
  | .inr value => next value

/-- A loop is its body followed by one turn. -/
def unroll (body : σ → Program (σ ⊕ β)) (state : σ) (next : β → Program α) : Program α :=
  (body state).bind (turn body next)

/-- Makes a system call again as long as it is cut short by a signal. -/
def retry (request : Call (Except Errno β)) : Program (Except Errno β) :=
  iterate (fun () => do
    match ← ask request with
    | .error e => if e = .interrupted then return .inl () else return .inr (.error e)
    | .ok value => return .inr (.ok value)) ()

end Program

/-- The outcome of calls answered one after another, made until one is not cut short by
a signal, with the number of calls made. Once the answers are used up there is no child
left to ask about. -/
def firstUninterrupted : List (Except Errno α) → Except Errno α × Nat
  | [] => (.error .noChild, 1)
  | answer :: answers =>
    match answer with
    | .error e =>
      if e = .interrupted then
        let (outcome, calls) := firstUninterrupted answers
        (outcome, calls + 1)
      else (answer, 1)
    | .ok _ => (answer, 1)

end JobShell
