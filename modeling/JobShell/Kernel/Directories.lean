import JobShell.Kernel.Path

/-!
The system calls on directories and names.
-/
namespace JobShell.Kernel

/-- Moves a process to another directory. All names are text, so that a path that is none
leads nowhere. -/
def changeDirectory (k : Kernel) (p : Process) (path : Path) : Except Errno Unit × Kernel :=
  match (String.fromUTF8? ⟨path.bytes.toArray⟩).map (k.resolve p true) with
  | some (.error e) => (.error e, k)
  | none | some (.ok (.missing ..)) => (.error .noEntry, k)
  | some (.ok (.found place)) =>
    if isDirectory k place then (.ok (), k.setProcess { p with cwd := place })
    else (.error .notDirectory, k)

def workingDirectory (k : Kernel) (p : Process) : Except Errno Path :=
  match k.directoryPath p.cwd with
  | some path => .ok path
  | none => .error .noEntry

/-- The names in a directory, without `.` and `..`. -/
def names (k : Kernel) : Place → List String
  | .node id =>
    match (k.node? id).map Node.content with
    | some (.directory entries _) => entries.map Prod.fst
    | some .processes => "self" :: k.processes.map fun p => toString p.pid
    | _ => []
  | .processDir _ => ["comm", "fd", "stat", "status"]
  | .processFds pid =>
    match k.process? pid with
    | some p => p.files.numbers.map toString
    | none => []
  | .processFile .. | .pipe _ => []

def kindOf (k : Kernel) : Place → FileKind
  | .node id =>
    match (k.node? id).map Node.content with
    | some (.directory ..) | some .processes => .directory
    | some (.link _) => .link
    | some (.fifo _) => .fifo
    | some (.device _) => .device
    | _ => .regular
  | .processDir _ | .processFds _ => .directory
  | .processFile .. => .regular
  | .pipe _ => .fifo

def inspectPlace (k : Kernel) (place : Place) : FileStatus :=
  let id := match place with
    | .node id => some id
    | _ => none
  let node := id.bind k.node?
  let size := match node.map Node.content with
    | some (.file data) => data.size
    | _ => 0
  { kind := kindOf k place, size, permissions := (node.map Node.permissions).getD 0o444
    identity := id }

def inspect (k : Kernel) (p : Process) (path : String) (follow : Bool) :
    Except Errno FileStatus :=
  match k.resolve p follow path with
  | .error e => .error e
  | .ok (.missing ..) => .error .noEntry
  | .ok (.found place) => .ok (k.inspectPlace place)

def inspectFd (k : Kernel) (p : Process) (fd : Fd) : Except Errno FileStatus :=
  match (p.files.get? fd).bind fun slot => k.openFile? slot.file with
  | none => .error .badFile
  | some file =>
    match file.subject with
    | .node id => .ok (k.inspectPlace (.node id))
    | .directory place => .ok (k.inspectPlace place)
    | .pipe _ => .ok { kind := .fifo, size := 0, permissions := 0o600, identity := none }
    | .device _ => .ok { kind := .device, size := 0, permissions := 0o666, identity := none }
    | .text data =>
      .ok { kind := .regular, size := data.size, permissions := 0o444, identity := none }

def makeDirectory (k : Kernel) (p : Process) (path : String) (permissions : Nat) :
    Except Errno Unit × Kernel :=
  match k.resolve p false path with
  | .error e => (.error e, k)
  | .ok (.found _) => (.error .fileExists, k)
  | .ok (.missing parent name) =>
    match k.node? parent with
    | some { content := .directory entries up, permissions := own, removed := false } =>
      let mode := permissions &&& (0o777 ^^^ (p.mask &&& 0o777))
      let (id, k) := k.addNode { content := .directory [] parent, permissions := mode }
      (.ok (), k.setNode parent
        { content := .directory (entries ++ [(name, id)]) up, permissions := own })
    | _ => (.error .noEntry, k)

/-- A directory without the names of a node, and anything else as it is. -/
def Node.without (id : NodeId) (node : Node) : Node :=
  match node.content with
  | .directory entries up =>
    { node with content := .directory (entries.filter fun entry => entry.2 != id) up }
  | _ => node

/-- Takes the name of a node out of the directory that lists it. -/
def unlinkNode (k : Kernel) (id : NodeId) : Kernel :=
  { k with nodes := k.nodes.map (Node.without id) }

def removeDirectory (k : Kernel) (p : Process) (path : String) : Except Errno Unit × Kernel :=
  match k.resolve p false path with
  | .error e => (.error e, k)
  | .ok (.missing ..) => (.error .noEntry, k)
  | .ok (.found (.node id)) =>
    match k.node? id with
    | some { content := .directory entries up, permissions, .. } =>
      if (components path).getLast? == some "." then (.error .invalid, k)
      else if id = rootNode then (.error .busy, k)
      else if !entries.isEmpty then (.error .notEmpty, k)
      else
        (.ok (), (k.setNode id
          { content := .directory [] up, permissions, removed := true }).unlinkNode id)
    | _ => (.error .notDirectory, k)
  | .ok (.found _) => (.error .notDirectory, k)

def unlink (k : Kernel) (p : Process) (path : String) : Except Errno Unit × Kernel :=
  match k.resolve p false path with
  | .error e => (.error e, k)
  | .ok (.missing ..) => (.error .noEntry, k)
  | .ok (.found place) =>
    if isDirectory k place then (.error .isDirectory, k)
    else
      match place with
      | .node id => (.ok (), k.unlinkNode id)
      | _ => (.error .perm, k)

/-- The node behind a descriptor. -/
def nodeOfFd? (k : Kernel) (p : Process) (fd : Fd) : Option NodeId := do
  let slot ← p.files.get? fd
  let file ← k.openFile? slot.file
  match file.subject with
  | .node id => some id
  | _ => none

def changePermissions (k : Kernel) (p : Process) (fd : Fd) (permissions : Nat) :
    Except Errno Unit × Kernel :=
  match k.nodeOfFd? p fd with
  | none => (.error .badFile, k)
  | some id =>
    match k.node? id with
    | some node => (.ok (), k.setNode id { node with permissions := permissions &&& 0o7777 })
    | none => (.error .badFile, k)

/-- The names in the directory behind a descriptor. -/
def listFd (k : Kernel) (p : Process) (fd : Fd) : Except Errno (List String) :=
  match (p.files.get? fd).bind fun slot => k.openFile? slot.file with
  | none => .error .badFile
  | some file =>
    match file.subject with
    | .directory place => .ok (k.names place)
    | _ => .error .notDirectory

end JobShell.Kernel
