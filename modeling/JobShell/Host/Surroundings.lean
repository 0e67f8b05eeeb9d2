import JobShell.Host.Basic

/-!
The surroundings that a host is started in: its driven process is in an empty directory of
its own, with whatever files are wanted there.
-/
namespace JobShell.Host

open Kernel (NodeId)

/-- Where standard input comes from. -/
inductive Feed where
  | nothing
  | closed
  | file (data : ByteArray)
  /-- A terminal at which this is typed, and then an end of file. -/
  | typed (data : ByteArray)

structure Surroundings where
  directories : List String := []
  files : List (String × ByteArray) := []
  modes : List (String × Nat) := []
  links : List (String × String) := []
  fifos : List String := []
  /-- The home directory, relative to the directory of the process. -/
  home : String := ""
  input : Feed := .nothing

def driverPid : Pid := 100

/-- A directory well below the root, and the one in it where the process starts. -/
def topPath : String := "/tmp/scratch"

def rootPath : String := topPath ++ "/1/2/3/4/5/6/7/8/root"

/-- Lines as a terminal hands them on: a carriage return counts as a newline. -/
def typedLines (data : ByteArray) : List ByteArray :=
  Utility.linesOf ⟨data.data.map fun b => if b = 13 then 10 else b⟩

def Surroundings.furnish (s : Surroundings) (root : NodeId) (k : Kernel) : Kernel :=
  let k := s.directories.foldl (fun k path => (ensure k root (Kernel.components path)).2) k
  let k := s.files.foldl (fun k f => putFile k root f.1 f.2) k
  let k := s.modes.foldl (fun k m => setPermissions k root m.1 m.2) k
  let k := s.links.foldl (fun k l => putLink k root l.1 l.2) k
  s.fifos.foldl (fun k path => putFifo k root path) k

/-- A file that no directory lists, opened so that it grows at its end. -/
def keepFile (k : Kernel) : NodeId × Kernel.OpenId × Kernel :=
  let (node, k) := k.addNode { content := .file .empty, permissions := 0o644 }
  let (file, k) := k.addOpenFile { subject := .node node, access := .readWrite, append := true }
  (node, file, k)

def openInput (k : Kernel) : Feed → Option Kernel.OpenId × Kernel
  | .nothing =>
    let (id, k) := k.addOpenFile { subject := .device .null, access := .read }
    (some id, k)
  | .closed => (none, k)
  | .file data =>
    let (node, k) := k.addNode { content := .file data, permissions := 0o644 }
    let (id, k) := k.addOpenFile { subject := .node node, access := .read }
    (some id, k)
  | .typed data =>
    let (id, k) := k.addOpenFile { subject := .device .terminal, access := .readWrite }
    (some id, { k with tty := { k.tty with typed := typedLines data } })

/-- Descriptors 0, 1 and 2, of which the first may be closed. -/
def standardFiles (input : Option Kernel.OpenId) (output errors : Kernel.OpenId) :
    Numbered Kernel.Slot :=
  let files : Numbered Kernel.Slot := {}
  let files := match input with
    | some file => files.put 0 { file }
    | none => files
  (files.put 1 { file := output }).put 2 { file := errors }

def driverProcess (root : NodeId) (files : Numbered Kernel.Slot) : Kernel.Process where
  pid := driverPid
  parent := 1
  group := driverPid
  name := "driver"
  files := files
  cwd := .node root
  ignored := [Signal.sigpipe]

def Surroundings.boot (s : Surroundings) : Host :=
  let k := freshKernel driverPid
  let (root, k) := ensure k Kernel.rootNode (Kernel.components rootPath)
  let k := s.furnish root k
  let (output, outputFile, k) := keepFile k
  let (errors, errorFile, k) := keepFile k
  let (input, k) := openInput k s.input
  let process := driverProcess root (standardFiles input outputFile errorFile)
  { machine := { kernel := { k with processes := [process] } }
    driver := driverPid, output, errors, root
    environment :=
      [("PATH", "/usr/local/bin:/usr/bin:/bin"), ("LC_ALL", "C"), ("TERM", "dumb"),
       ("HOME", rootPath ++ "/" ++ s.home)] }

end JobShell.Host
