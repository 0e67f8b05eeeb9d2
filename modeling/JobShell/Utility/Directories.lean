import JobShell.Utility.Basic

/-!
Utilities on directories and names: `ls`, `mkdir`, `rmdir`, `rm`, `pwd`.
-/
namespace JobShell.Utility

def isHidden (name : String) : Bool := name.startsWith "."

/-- Names in a directory in byte order. -/
def listDirectory (path : String) : Program (Except Errno (List String)) := do
  match ← Program.retry (.openFile path { access := .read, closeOnExec := true } 0) with
  | .error e => return .error e
  | .ok fd =>
    let names ← Program.ask (.list fd)
    let _ ← Program.ask (.close fd)
    return names.map fun names => names.mergeSort fun a b => decide (a ≤ b)

def shownNames (request : Request) (names : List String) : List String :=
  if request.has 'a' then "." :: ".." :: names
  else if request.has 'A' then names
  else names.filter fun name => !isHidden name

/-- Sorts operands into files and directories; what is neither is told. -/
def classify (utility : String) (request : Request) :
    Arguments → Program (List String × List String × Bool)
  | [] => return ([], [], true)
  | path :: paths => do
    match ← Program.ask (.inspect path true) with
    | .error e =>
      match ← Program.ask (.inspect path false) with
      | .ok _ =>
        let (files, directories, whole) ← classify utility request paths
        return (path :: files, directories, whole)
      | .error _ =>
        tell s!"{utility}: cannot access '{path}': {e.sentence}\n"
        let (files, directories, _) ← classify utility request paths
        return (files, directories, false)
    | .ok status =>
      let (files, directories, whole) ← classify utility request paths
      if status.kind == .directory && !request.has 'd' then
        return (files, path :: directories, whole)
      else return (path :: files, directories, whole)

def showDirectories (utility : String) (request : Request) (headed first : Bool)
    (shown : List String) (whole : Bool) : Arguments → Program (List String × Bool)
  | [] => return (shown, whole)
  | path :: paths => do
    match ← listDirectory path with
    | .error e =>
      tell s!"{utility}: cannot open directory '{path}': {e.sentence}\n"
      showDirectories utility request headed first shown false paths
    | .ok names =>
      let title := if headed then (if first then "" else "\n") ++ path ++ ":\n" else ""
      let lines := (shownNames request names).map fun name => name ++ "\n"
      showDirectories utility request headed false (shown ++ title :: lines) whole paths

/-- The utility `ls [-1Aad] [path...]`, one name on a line. -/
def ls (utility : String) (args : Arguments) : Program Status :=
  withOptions utility "" "1AadU" args 2 fun request => do
    let paths := if request.operands.isEmpty then ["."] else request.operands
    let (files, directories, whole) ← classify utility request
      (paths.mergeSort fun a b => decide (a ≤ b))
    let headed := decide (1 < paths.length)
    let (shown, all) ← showDirectories utility request headed files.isEmpty
      (files.map fun name => name ++ "\n") whole directories
    let status ← deliver utility (String.join shown).toUTF8 0
    return if all && status == 0 then 0 else 2

/-- Does something to each operand. Failures are told as `utility: verb 'name': reason`. -/
def onEach (utility failed : String) (act : String → Program (Except (String × Errno) Unit))
    (whole : Bool) : Arguments → Program Status
  | [] => return statusOf whole
  | path :: paths => do
    match ← act path with
    | .ok () => onEach utility failed act whole paths
    | .error (path, e) =>
      tell s!"{utility}: {failed} '{path}': {e.sentence}\n"
      onEach utility failed act false paths

/-- Says which path a failure is about. -/
def blaming (path : String) (answer : Except Errno Unit) : Except (String × Errno) Unit :=
  answer.mapError fun e => (path, e)

/-- Makes a directory and those on the way to it. A failure comes with its path. -/
def makeDirectories (made : String) : List String → Program (Except (String × Errno) Unit)
  | [] => return .ok ()
  | name :: names => do
    let path := made ++ name
    match ← Program.ask (.makeDirectory path 0o777) with
    | .ok () => makeDirectories (path ++ "/") names
    | .error e =>
      if e = .fileExists then
        match ← Program.ask (.inspect path true) with
        | .ok status =>
          if status.kind == .directory then makeDirectories (path ++ "/") names
          else return .error (path, if names.isEmpty then e else .notDirectory)
        | .error e => return .error (path, e)
      else return .error (path, e)

/-- The utility `mkdir [-p] directory...` -/
def mkdir (utility : String) (args : Arguments) : Program Status :=
  withOptions utility "" "pv" args 1 fun request =>
    if request.operands.isEmpty then misuse utility "missing operand" 1
    else
      onEach utility "cannot create directory" (fun path => do
        if request.has 'p' then
          makeDirectories (if path.startsWith "/" then "/" else "")
            ((path.splitOn "/").filter fun name => !name.isEmpty)
        else return blaming path (← Program.ask (.makeDirectory path 0o777)))
        true request.operands

/-- The utility `rmdir directory...` -/
def rmdir (utility : String) (args : Arguments) : Program Status :=
  withOptions utility "" "v" args 1 fun request =>
    if request.operands.isEmpty then misuse utility "missing operand" 1
    else
      onEach utility "failed to remove" (fun path => do
        return blaming path (← Program.ask (.removeDirectory path))) true request.operands

/-- Directories may be nested this deep where they are removed as a whole. -/
def maxDepth : Nat := 256

mutual

def removeTree (depth : Nat) (path : String) : Program (Except Errno Unit) := do
  match ← Program.ask (.unlink path) with
  | .ok () => return .ok ()
  | .error e =>
    match depth with
    | 0 => return .error e
    | depth + 1 =>
      if e = .isDirectory then
        match ← listDirectory path with
        | .error e => return .error e
        | .ok names =>
          removeEach depth path names
          Program.ask (.removeDirectory path)
      else return .error e
termination_by (depth, 0)

def removeEach (depth : Nat) (path : String) : List String → Program Unit
  | [] => return ()
  | name :: names => do
    let _ ← removeTree depth (path ++ "/" ++ name)
    removeEach depth path names
termination_by names => (depth, names.length + 1)

end

/-- The utility `rm [-fr] file...` -/
def rm (utility : String) (args : Arguments) : Program Status :=
  withOptions utility "" "fRrv" args 1 fun request =>
    let force := request.has 'f'
    let whole := request.has 'r' || request.has 'R'
    if request.operands.isEmpty && !force then misuse utility "missing operand" 1
    else
      onEach utility "cannot remove" (fun path => do
        match ← (if whole then removeTree maxDepth path else Program.ask (.unlink path)) with
        | .error e => return if force && e = .noEntry then .ok () else .error (path, e)
        | .ok () => return .ok ()) true request.operands

def pwd (utility : String) (_ : Arguments) : Program Status := do
  match ← Program.ask .workingDirectory with
  | .ok path => deliver utility (path.shown ++ "\n").toUTF8 0
  | .error _ =>
    tell s!"{utility}: couldn't find directory entry in '..' with matching i-node\n"
    return 1

end JobShell.Utility
