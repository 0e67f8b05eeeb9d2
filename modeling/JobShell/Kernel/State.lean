import JobShell.Numbered
import JobShell.System.Call

/-!
The state of the system that programs run on: files, pipes, open files, processes and
one terminal. It is plain data; what processes are about to do is kept elsewhere.
-/
namespace JobShell.Kernel

abbrev NodeId := Nat
abbrev PipeId := Nat
/-- Numbers of open files, shared by all descriptors that were copied from one. -/
abbrev OpenId := Nat

inductive Device where
  | null
  | zero
  /-- It has no room for anything. -/
  | full
  | terminal
  deriving DecidableEq, Repr

inductive Content where
  | file (data : ByteArray)
  | directory (entries : List (String × NodeId)) (parent : NodeId)
  | link (target : String)
  | fifo (pipe : PipeId)
  | device (device : Device)
  /-- A program that comes with the system. -/
  | program (name : String)
  /-- The directory of all processes. -/
  | processes

structure Node where
  content : Content
  permissions : Nat
  /-- No directory lists it any more. -/
  removed : Bool := false

/-- The files that describe a process. -/
inductive ProcessFile where
  /-- One line of numbers. -/
  | stat
  /-- Lines with a title each. -/
  | status
  /-- Its name. -/
  | comm
  deriving DecidableEq, Repr

/-- What a path can lead to: a node, or one of the files that describe a process. -/
inductive Place where
  | node (id : NodeId)
  | processDir (pid : Pid)
  | processFile (pid : Pid) (file : ProcessFile)
  | processFds (pid : Pid)
  | pipe (id : PipeId)
  deriving DecidableEq, Repr

structure Pipe where
  /-- Bytes written and not read yet. -/
  data : ByteArray := .empty
  readers : Nat := 0
  writers : Nat := 0
  /-- How often it was opened for reading and for writing, all in all. -/
  readerOpens : Nat := 0
  writerOpens : Nat := 0

inductive Subject where
  | node (id : NodeId)
  | directory (place : Place)
  | pipe (id : PipeId)
  | device (device : Device)
  /-- A text made when the file was opened. -/
  | text (data : ByteArray)

structure OpenFile where
  subject : Subject
  access : Access
  append : Bool := false
  offset : Nat := 0
  /-- Descriptors that refer to it. -/
  references : Nat := 1

def OpenFile.isTerminal (file : OpenFile) : Bool := file.subject matches .device .terminal

structure Slot where
  file : OpenId
  closeOnExec : Bool := false
  deriving DecidableEq, Repr

inductive Life where
  | running
  | stopped (signal : Signal) (reported : Bool)
  | ended (status : WaitStatus)
  deriving DecidableEq, Repr

/-- A fifo being opened: the open file is there, the other side has yet to come. -/
structure Opening where
  file : OpenId
  pipe : PipeId
  /-- How often the other side had been opened at the start. -/
  seen : Nat
  deriving DecidableEq, Repr

structure Process where
  pid : Pid
  parent : Pid
  group : Pid
  name : String
  files : Numbered Slot := {}
  /-- Descriptors are smaller than this. -/
  fileLimit : Nat := 1024
  cwd : Place
  mask : Nat := 0o022
  ignored : List Signal := []
  /-- Signals that it records instead of acting on them, and those that have arrived. -/
  recorded : List Signal := []
  arrived : List Signal := []
  /-- The group that a recorded SIGINT is passed on to. -/
  relay : Option Pid := none
  life : Life := .running
  /-- Signals that arrived while it was stopped. -/
  held : List Signal := []
  opening : Option Opening := none
  wakeAt : Option Nat := none
  /-- It has become another program since it was started. -/
  replaced : Bool := false

/-- It has ended, collected or not. -/
def Process.hasEnded (p : Process) : Bool := p.life matches .ended _

def Process.isRunning (p : Process) : Bool := p.life matches .running

def Process.isStopped (p : Process) : Bool := p.life matches .stopped ..

structure Tty where
  /-- It is the controlling terminal of the processes. -/
  attached : Bool := true
  foreground : Pid
  /-- Lines typed and not read yet. -/
  typed : List ByteArray := []

end Kernel

structure Kernel where
  nodes : Array Kernel.Node
  pipes : Array Kernel.Pipe := #[]
  openFiles : Array Kernel.OpenFile := #[]
  /-- By increasing number. -/
  processes : List Kernel.Process := []
  nextPid : Pid
  /-- The session that all processes belong to. -/
  session : Pid
  /-- Milliseconds since the start. -/
  clock : Nat := 0
  tty : Kernel.Tty

namespace Kernel

def rootNode : NodeId := 0

def node? (k : Kernel) (id : NodeId) : Option Node := k.nodes[id]?

def setNode (k : Kernel) (id : NodeId) (node : Node) : Kernel :=
  { k with nodes := k.nodes.setIfInBounds id node }

def addNode (k : Kernel) (node : Node) : NodeId × Kernel :=
  (k.nodes.size, { k with nodes := k.nodes.push node })

def process? (k : Kernel) (pid : Pid) : Option Process :=
  k.processes.find? fun p => p.pid == pid

/-- Replaces the process with the same number. -/
def setProcess (k : Kernel) (p : Process) : Kernel :=
  { k with processes := k.processes.map fun q => if q.pid == p.pid then p else q }

def removeProcess (k : Kernel) (pid : Pid) : Kernel :=
  { k with processes := k.processes.filter fun p => p.pid != pid }

def pipe? (k : Kernel) (id : PipeId) : Option Pipe := k.pipes[id]?

def updatePipe (k : Kernel) (id : PipeId) (f : Pipe → Pipe) : Kernel :=
  { k with pipes := k.pipes.modify id f }

def addPipe (k : Kernel) (pipe : Pipe) : PipeId × Kernel :=
  (k.pipes.size, { k with pipes := k.pipes.push pipe })

def openFile? (k : Kernel) (id : OpenId) : Option OpenFile := k.openFiles[id]?

def updateOpenFile (k : Kernel) (id : OpenId) (f : OpenFile → OpenFile) : Kernel :=
  { k with openFiles := k.openFiles.modify id f }

def addOpenFile (k : Kernel) (file : OpenFile) : OpenId × Kernel :=
  (k.openFiles.size, { k with openFiles := k.openFiles.push file })

/-- Members of a group that have not ended. -/
def members (k : Kernel) (group : Pid) : List Process :=
  k.processes.filter fun p => p.group == group && !p.hasEnded

end Kernel

end JobShell
