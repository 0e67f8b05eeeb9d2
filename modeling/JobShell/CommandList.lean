/-!
The commands of one input line. A line is a list of pipelines; each pipeline
ends with the operator that decides how the next one is reached, and consists of
stages connected by pipes.
-/
namespace JobShell

/-- Numbers of processes and of process groups. -/
abbrev Pid := Int

/-- Exit statuses, 32 bits wide. -/
abbrev Status := Int

inductive Stream where
  | stdin
  | stdout
  | stderr
  deriving DecidableEq, Repr

inductive Mode where
  | read
  | truncate
  | append
  deriving DecidableEq, Repr

structure Redirection where
  stream : Stream
  mode : Mode
  target : String
  deriving DecidableEq, Repr

/-- The redirection written as `operator target`. Any operator other than `<`, `>>`,
`2>` and `2>>` means standard output, truncated. -/
def Redirection.ofOperator (operator target : String) : Redirection :=
  if operator = "<" then ⟨.stdin, .read, target⟩
  else if operator = ">>" then ⟨.stdout, .append, target⟩
  else if operator = "2>" then ⟨.stderr, .truncate, target⟩
  else if operator = "2>>" then ⟨.stderr, .append, target⟩
  else ⟨.stdout, .truncate, target⟩

/-- Place of a stage in its pipeline, as far as pipes go. -/
inductive PipeRole where
  | none
  | readsPrevious
  | writesNext
  | both
  deriving DecidableEq, Repr

namespace PipeRole

def reads : PipeRole → Bool
  | readsPrevious | both => true
  | none | writesNext => false

def writes : PipeRole → Bool
  | writesNext | both => true
  | none | readsPrevious => false

/-- The role of stage `i` of `count` stages. -/
def ofPosition (i count : Nat) : PipeRole :=
  if count ≤ 1 then none
  else if i = 0 then writesNext
  else if i + 1 = count then readsPrevious
  else both

end PipeRole

structure Stage where
  /-- The program followed by its arguments. -/
  argv : List String := []
  redirections : List Redirection := []
  role : PipeRole := .none
  /-- The process that runs the stage, once it has been forked. -/
  pid : Option Pid := Option.none
  deriving DecidableEq, Repr

/-- The name of the program, if the stage has any word. -/
def Stage.program? (s : Stage) : Option String := s.argv.head?

/-- The operator that ends a pipeline. -/
inductive Join where
  /-- Semicolon: the next pipeline runs whatever this one did. -/
  | sequence
  /-- Ampersand: this pipeline runs in the background. -/
  | background
  /-- Double ampersand: the next pipeline runs if this one succeeded. -/
  | and
  /-- Double bar: the next pipeline runs if this one failed. -/
  | or
  /-- The end of the line. -/
  | none
  deriving DecidableEq, Repr

/-- Whether the pipeline after one that ended with this operator is run, given the
last exit status. -/
def Join.admitsAfter : Join → Status → Bool
  | .and, status => status == 0
  | .or, status => status != 0
  | _, _ => true

structure Pipeline where
  stages : List Stage
  join : Join
  group : Option Pid := Option.none
  /-- Status of the last stage, once every stage was waited for. -/
  status : Option Status := Option.none
  deriving DecidableEq, Repr

namespace Pipeline

def isBackground (p : Pipeline) : Bool := p.join == .background

/-- The words of each stage, with neither redirections nor quotes. -/
def text (p : Pipeline) : String :=
  " | ".intercalate (p.stages.map fun s => " ".intercalate s.argv)

def pids (p : Pipeline) : List Pid := p.stages.filterMap Stage.pid

end Pipeline

abbrev CommandList := List Pipeline

namespace PipeRole

theorem reads_ofPosition (i count : Nat) (h : i < count) :
    (ofPosition i count).reads = decide (0 < i) := by
  unfold ofPosition
  split
  · obtain rfl : i = 0 := by omega
    rfl
  · split
    · subst i; rfl
    · have : 0 < i := by omega
      split <;> simp [reads, this]

theorem writes_ofPosition (i count : Nat) (h : i < count) :
    (ofPosition i count).writes = decide (i + 1 < count) := by
  unfold ofPosition
  split
  · have : ¬ i + 1 < count := by omega
    simp [writes, this]
  · split
    · have : i + 1 < count := by omega
      simp [writes, this]
    · split
      · have : ¬ i + 1 < count := by omega
        simp [writes, this]
      · have : i + 1 < count := by omega
        simp [writes, this]

end PipeRole

end JobShell
