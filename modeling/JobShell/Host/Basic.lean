import JobShell.Host.Image

/-!
A host: a machine with one process that is driven from outside. What that process and its
children write to standard output and standard error is kept.
-/
namespace JobShell

open Kernel (NodeId)

/-- A machine and its driven process, with the files that keep what is written. -/
structure Host where
  machine : Machine
  driver : Pid
  output : NodeId
  errors : NodeId
  /-- The directory that the process starts in. -/
  root : NodeId
  environment : Environment

namespace Host

/-- Enough rounds and steps for everything that comes to an end. -/
def patience : Nat := 100000000

/-- Runs a program in the driven process. There is no value if it waits in vain. -/
def run (h : Host) (program : Program α) : Option α × Host :=
  let (value, machine) := h.machine.drive library h.driver patience program
  (value, { h with machine })

def process? (h : Host) : Option Kernel.Process := h.machine.kernel.process? h.driver

def isAlive (h : Host) : Bool := h.process?.any fun p => !(p.life matches .ended _)

def changeProcess (h : Host) (f : Kernel.Process → Kernel.Process) : Host :=
  match h.process? with
  | some p => { h with machine.kernel := h.machine.kernel.setProcess (f p) }
  | none => h

/-- Gives the processes their terminal, or takes it away. -/
def attach (h : Host) (attached : Bool) : Host :=
  { h with machine.kernel.tty.attached := attached }

def children (h : Host) : List Kernel.Process :=
  h.machine.kernel.processes.filter fun p => p.parent == h.driver

/-- How many children neither ended nor stopped. -/
def alive (h : Host) : Nat := (h.children.filter fun p => p.life matches .running).length

/-- Rounds that the other processes are given, some of which may never come to rest. -/
def idleRounds : Nat := 1000

/-- Lets the other processes do what they can. -/
def idle (h : Host) : Host := { h with machine := h.machine.idle library idleRounds }

/-- Waits until all children but `keep` have ended or stopped, as long as there is anything
to wait for. -/
def settle (h : Host) (keep : Nat) : Host := go patience h.idle
where
  go : Nat → Host → Host
    | 0, h => h
    | turns + 1, h =>
      if h.alive ≤ keep then h
      else
        match h.machine.advance? with
        | some machine => go turns { h with machine }.idle
        | none => h

def killChildren (h : Host) : Host :=
  let h := h.idle
  let kernel := h.children.foldl (fun k p => k.signalProcess p.pid Signal.sigkill) h.machine.kernel
  { h with machine := { h.machine with kernel }.tidy }.idle

def kept (h : Host) (node : NodeId) : ByteArray :=
  match (h.machine.kernel.node? node).map Kernel.Node.content with
  | some (.file data) => data
  | _ => .empty

def outputText (h : Host) : ByteArray := h.kept h.output

def errorText (h : Host) : ByteArray := h.kept h.errors

/-- The directory that the driven process is in, if it still has a path. -/
def workingDirectory? (h : Host) : Option String :=
  h.process?.bind fun p => h.machine.kernel.directoryPath p.cwd

/-- Everything below the directory that the process started in. -/
def files (h : Host) : List (String × Found) :=
  below h.machine.kernel h.machine.kernel.nodes.size "" h.root

end Host

end JobShell
