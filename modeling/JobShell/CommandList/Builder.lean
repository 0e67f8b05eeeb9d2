import JobShell.CommandList
import JobShell.Token

/-!
From tokens to a command list. Words and redirections go to the stage being
written, `|` starts the next stage of the same pipeline, and `;`, `&`, `&&`, `||`
or the end of the line close the pipeline.

A line with an empty command between two operators is not an error: it is
skipped as a whole, unless something later in it is one.
-/
namespace JobShell

/-- Why a line is no command list. -/
inductive SyntaxError where
  | missingTarget (operator : String)
  | unexpected (operator : String)
  | unsupported (token : String)
  deriving DecidableEq, Repr

structure Draft where
  /-- Pipelines closed so far. -/
  closed : List Pipeline := []
  /-- Stages of the open pipeline that a `|` has ended. -/
  stages : List Stage := []
  /-- The stage being written. -/
  current : Stage := {}
  /-- Some pipeline was closed without a command in it. -/
  sawEmpty : Bool := false
  /-- The last operator that closed a pipeline. -/
  lastJoin : Option (Join × String) := none
  deriving Repr

/-- Gives every stage the role of its position. -/
def assignRoles (stages : List Stage) : List Stage :=
  stages.mapIdx fun i s => { s with role := .ofPosition i stages.length }

namespace Draft

def addWord (d : Draft) (word : String) : Draft :=
  { d with current := { d.current with argv := d.current.argv ++ [word] } }

def addRedirection (d : Draft) (r : Redirection) : Draft :=
  { d with current := { d.current with redirections := d.current.redirections ++ [r] } }

def closeStage (d : Draft) : Draft :=
  { d with stages := d.stages ++ [d.current], current := {} }

/-- Nothing but redirections after the last `|`. -/
def danglingPipe (d : Draft) : Bool := !d.stages.isEmpty && d.current.argv.isEmpty

/-- Closes the open pipeline. One without a command is dropped, with its redirections. -/
def closePipeline (d : Draft) (join : Join) : Draft :=
  if d.current.argv.isEmpty then { d with current := {} }
  else
    { d with
      closed := d.closed ++ [{ stages := assignRoles (d.stages ++ [d.current]), join }]
      stages := []
      current := {} }

/-- Closes the open pipeline at an operator of the line. -/
def closeAt (d : Draft) (join : Join) (operator : String) : Draft :=
  { d.closePipeline join with
    sawEmpty := d.sawEmpty || d.current.argv.isEmpty
    lastJoin := some (join, operator) }

def finish (d : Draft) : Except SyntaxError CommandList :=
  if d.danglingPipe then .error (.unexpected "|")
  else
    match d.current.argv.isEmpty, d.lastJoin with
    | true, some (.and, operator) => .error (.unexpected operator)
    | true, some (.or, operator) => .error (.unexpected operator)
    | _, _ => .ok (if d.sawEmpty then [] else (d.closePipeline .none).closed)

end Draft

/-- Goes on writing `d` with the tokens that follow. -/
def buildFrom (d : Draft) : List Token → Except SyntaxError CommandList
  | [] => d.finish
  | ⟨.word, text⟩ :: ts => buildFrom (d.addWord text) ts
  | ⟨.redirect, operator⟩ :: ⟨.word, target⟩ :: ts =>
    buildFrom (d.addRedirection (.ofOperator operator target)) ts
  | ⟨.redirect, operator⟩ :: _ => .error (.missingTarget operator)
  | ⟨.pipe, text⟩ :: ts =>
    if d.current.argv.isEmpty then .error (.unexpected text) else buildFrom d.closeStage ts
  | ⟨.leftParen, text⟩ :: _ => .error (.unsupported text)
  | ⟨.rightParen, text⟩ :: _ => .error (.unsupported text)
  | ⟨.sequence, text⟩ :: ts => close .sequence text ts
  | ⟨.background, text⟩ :: ts => close .background text ts
  | ⟨.and, text⟩ :: ts => close .and text ts
  | ⟨.or, text⟩ :: ts => close .or text ts
where
  close (join : Join) (text : String) (ts : List Token) : Except SyntaxError CommandList :=
    if d.danglingPipe then .error (.unexpected "|") else buildFrom (d.closeAt join text) ts

def build (ts : List Token) : Except SyntaxError CommandList := buildFrom {} ts

def parse (line : String) : Except SyntaxError CommandList := build (tokens line)

end JobShell
