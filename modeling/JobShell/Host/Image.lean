import JobShell.Host.Programs

/-!
The files that a host starts with, and files put in place from outside.
-/
namespace JobShell.Host

open Kernel (Content Node NodeId)

def emptyKernel (driver : Pid) : Kernel where
  nodes := #[{ content := .directory [] Kernel.rootNode, permissions := 0o755 }]
  nextPid := driver + 1
  session := driver
  tty := { foreground := driver }

/-- The node that a directory lists under a name. -/
def listed? (k : Kernel) (directory : NodeId) (name : String) : Option NodeId :=
  match (k.node? directory).map Node.content with
  | some (.directory entries _) => entries.lookup name
  | _ => none

/-- The directory that names lead to, made where it is missing. -/
def ensure (k : Kernel) (directory : NodeId) : List String → NodeId × Kernel
  | [] => (directory, k)
  | name :: names =>
    match listed? k directory name with
    | some id => ensure k id names
    | none =>
      let (id, k) := k.link directory name
        { content := .directory [] directory, permissions := 0o755 }
      ensure k id names

/-- Puts a node where a path leads, below a directory. -/
def put (k : Kernel) (directory : NodeId) (path : String) (node : Node) : Kernel :=
  let names := Kernel.components path
  match names.getLast? with
  | none => k
  | some name =>
    let (parent, k) := ensure k directory names.dropLast
    match listed? k parent name with
    | some id => k.setNode id node
    | none => (k.link parent name node).2

def find? (k : Kernel) (directory : NodeId) (path : String) : Option NodeId :=
  (Kernel.components path).foldlM (listed? k) directory

def setPermissions (k : Kernel) (directory : NodeId) (path : String) (permissions : Nat) :
    Kernel :=
  match find? k directory path with
  | some id =>
    match k.node? id with
    | some node => k.setNode id { node with permissions }
    | none => k
  | none => k

def putFile (k : Kernel) (directory : NodeId) (path : String) (data : ByteArray) : Kernel :=
  put k directory path { content := .file data, permissions := 0o644 }

def putLink (k : Kernel) (directory : NodeId) (path target : String) : Kernel :=
  put k directory path { content := .link target, permissions := 0o777 }

def putFifo (k : Kernel) (directory : NodeId) (path : String) : Kernel :=
  let (pipe, k) := k.addPipe {}
  put k directory path { content := .fifo pipe, permissions := 0o644 }

def putProgram (k : Kernel) (path name : String) : Kernel :=
  put k Kernel.rootNode path { content := .program name, permissions := 0o755 }

def putDevice (k : Kernel) (path : String) (device : Kernel.Device) : Kernel :=
  put k Kernel.rootNode path { content := .device device, permissions := 0o666 }

/-- Where the shell and the programs to try it with are. -/
def shellDirectory : String := "/opt/jcsh"

/-- The system with its devices and programs. -/
def freshKernel (driver : Pid) : Kernel :=
  let k := emptyKernel driver
  let k := ["/etc", "/home", "/root", "/tmp", "/usr/local/bin", "/var"].foldl
    (fun k path => (ensure k Kernel.rootNode (Kernel.components path)).2) k
  let k := utilities.foldl (fun k u => putProgram k ("/usr/bin/" ++ u.1) u.1) k
  let k := shellPrograms.foldl (fun k u => putProgram k (shellDirectory ++ "/" ++ u.1) u.1) k
  let k := putLink k Kernel.rootNode "/bin" "usr/bin"
  let k := putDevice k "/dev/null" .null
  let k := putDevice k "/dev/zero" .zero
  let k := putDevice k "/dev/full" .full
  let k := putDevice k "/dev/tty" .terminal
  let k := putLink k Kernel.rootNode "/dev/fd" "/proc/self/fd"
  let k := putLink k Kernel.rootNode "/dev/stdin" "/proc/self/fd/0"
  let k := putLink k Kernel.rootNode "/dev/stdout" "/proc/self/fd/1"
  let k := putLink k Kernel.rootNode "/dev/stderr" "/proc/self/fd/2"
  put k Kernel.rootNode "/proc" { content := .processes, permissions := 0o555 }

inductive Found where
  | directory
  | file (permissions : Nat) (data : ByteArray)
  | link (target : String)
  | special

/-- Everything below a directory, with paths that start with `above`. `depth` bounds how
deep directories are nested. -/
def below (k : Kernel) : (depth : Nat) → (above : String) → NodeId → List (String × Found)
  | 0, _, _ => []
  | depth + 1, above, directory =>
    match (k.node? directory).map Node.content with
    | some (.directory entries _) =>
      entries.flatMap fun (name, id) =>
        let path := above ++ name
        match k.node? id with
        | some { content := .directory .., .. } =>
          (path, .directory) :: below k depth (path ++ "/") id
        | some { content := .file data, permissions, .. } => [(path, .file permissions data)]
        | some { content := .link target, .. } => [(path, .link target)]
        | some _ => [(path, .special)]
        | none => []
    | _ => []

end JobShell.Host
