import JobShell.Kernel.State

/-!
Paths: from a text to what it names. Symbolic links on the way are followed, forty of
them at most, and the last one only if asked for.
-/
namespace JobShell.Kernel

/-- The longest path and the longest name in one, in bytes. -/
def maxPathLength : Nat := 4095
def maxNameLength : Nat := 255

def maxLinks : Nat := 40

inductive Resolution where
  | found (place : Place)
  /-- Only the last name is missing in an existing directory. -/
  | missing (parent : NodeId) (name : String)
  deriving DecidableEq, Repr

def components (path : String) : List String := (path.splitOn "/").filter fun s => !s.isEmpty

/-- A number in ASCII digits. -/
def pidNamed? (name : String) : Option Pid :=
  if !name.isEmpty && name.toList.all (fun c => '0' ≤ c && c ≤ '9') then
    name.toNat?.map Int.ofNat
  else none

def isDirectory (k : Kernel) : Place → Bool
  | .node id =>
    match (k.node? id).map Node.content with
    | some (.directory ..) | some .processes => true
    | _ => false
  | .processDir _ | .processFds _ => true
  | .processFile .. | .pipe _ => false

def linkTarget? (k : Kernel) : Place → Option String
  | .node id =>
    match (k.node? id).map Node.content with
    | some (.link target) => some target
    | _ => none
  | _ => none

/-- What a descriptor of a process refers to, as a place. -/
def placeOfFd? (k : Kernel) (pid : Pid) (fd : Fd) : Option Place := do
  let p ← k.process? pid
  let slot ← p.files.get? fd
  let file ← k.openFile? slot.file
  match file.subject with
  | .node id => some (.node id)
  | .directory place => some place
  | .pipe id => some (.pipe id)
  | .device device =>
    let same (node : Node) : Bool := match node.content with
      | .device other => other == device
      | _ => false
    (k.nodes.findIdx? same).map .node
  | .text _ => none

def processesPlace (k : Kernel) : Place :=
  .node ((k.nodes.findIdx? fun node => node.content matches .processes).getD rootNode)

/-- Looks a name up in a directory, for the process `self`. -/
def lookupName (k : Kernel) (self : Pid) (directory : Place) (name : String) : Option Place :=
  if name = "." then some directory
  else
    match directory with
    | .node id =>
      match (k.node? id).map Node.content with
      | some (.directory entries parent) =>
        if name = ".." then some (.node parent) else (entries.lookup name).map .node
      | some .processes =>
        if name = ".." then some (.node rootNode)
        else if name = "self" then some (.processDir self)
        else (pidNamed? name).bind fun pid => (k.process? pid).map fun _ => .processDir pid
      | _ => none
    | .processDir pid =>
      if name = ".." then some (processesPlace k)
      else if name = "stat" then some (.processFile pid .stat)
      else if name = "status" then some (.processFile pid .status)
      else if name = "comm" then some (.processFile pid .comm)
      else if name = "fd" then some (.processFds pid)
      else none
    | .processFds pid =>
      if name = ".." then some (.processDir pid)
      else (pidNamed? name).bind fun fd => placeOfFd? k pid fd.toNat
    | .processFile .. | .pipe _ => none

/-- Walks along names from a place. `links` is how many links may still be followed. -/
def walk (k : Kernel) (self : Pid) (follow : Bool) (links : Nat) (place : Place) :
    List String → Except Errno Resolution
  | [] => .ok (.found place)
  | name :: names =>
    if !isDirectory k place then .error .notDirectory
    else if maxNameLength < name.utf8ByteSize then .error .nameTooLong
    else
      match lookupName k self place name with
      | none =>
        match place, names with
        | .node id, [] => .ok (.missing id name)
        | _, _ => .error .noEntry
      | some next =>
        match linkTarget? k next with
        | some target =>
          if names.isEmpty && !follow then .ok (.found next)
          else
            match links with
            | 0 => .error .loop
            | links + 1 =>
              let start := if target.startsWith "/" then .node rootNode else place
              walk k self follow links start (components target ++ names)
        | none => walk k self follow links next names
termination_by names => (links, names.length)

/-- Where a path leads, for a process. A slash at the end asks for a directory. -/
def resolve (k : Kernel) (p : Process) (follow : Bool) (path : String) :
    Except Errno Resolution :=
  if path.isEmpty then .error .noEntry
  else if maxPathLength < path.utf8ByteSize then .error .nameTooLong
  else
    let start := if path.startsWith "/" then .node rootNode else p.cwd
    let slash := path.endsWith "/"
    match walk k p.pid (follow || slash) maxLinks start (components path) with
    | .ok (.found place) =>
      if slash && !isDirectory k place then .error .notDirectory else .ok (.found place)
    | answer => answer

/-- The path of a directory, from the root. Removed directories have none. `depth` bounds
how far the root can be away. -/
def pathOf (k : Kernel) (depth : Nat) (id : NodeId) (suffix : String) : Option String :=
  if id = rootNode then some (if suffix.isEmpty then "/" else suffix)
  else
    match depth, k.node? id with
    | depth + 1, some { content := .directory _ parent, removed := false, .. } =>
      match (k.node? parent).map Node.content with
      | some (.directory entries _) =>
        match entries.find? fun entry => entry.2 == id with
        | some (name, _) => pathOf k depth parent ("/" ++ name ++ suffix)
        | none => none
      | _ => none
    | _, _ => none

/-- The path of a place that can be a working directory. -/
def directoryPath (k : Kernel) : Place → Option String
  | .node id =>
    match (k.node? id).map Node.content with
    | some .processes => some "/proc"
    | _ => pathOf k k.nodes.size id ""
  | .processDir pid => some s!"/proc/{pid}"
  | .processFds pid => some s!"/proc/{pid}/fd"
  | .processFile .. | .pipe _ => none

end JobShell.Kernel
