import JobShell.Errno
import JobShell.Text.Path
import JobShell.WaitStatus

/-!
Requests that a process makes to the operating system. The index of `Call` is the
type of the answer.
-/
namespace JobShell

/-- Descriptors of a process. -/
abbrev Fd := Nat

/-- Names and values, in the order in which they were set. -/
abbrev Environment := List (String × String)

inductive Access where
  | read
  | write
  | readWrite
  deriving DecidableEq, Repr

structure OpenFlags where
  access : Access
  create : Bool := false
  truncate : Bool := false
  append : Bool := false
  closeOnExec : Bool := false
  deriving DecidableEq, Repr

/-- Flags of a redirection. -/
def Mode.flags : Mode → OpenFlags
  | .read => { access := .read }
  | .truncate => { access := .write, create := true, truncate := true }
  | .append => { access := .write, create := true, append := true }

/-- The descriptor of a standard stream. -/
def Stream.fd : Stream → Fd
  | .stdin => 0
  | .stdout => 1
  | .stderr => 2

structure WaitOptions where
  /-- Answer at once when there is nothing to report. -/
  noHang : Bool := false
  /-- Report processes that have stopped, too. -/
  untraced : Bool := false
  deriving DecidableEq, Repr

/-- Whom a signal is sent to. -/
inductive Target where
  | process (pid : Pid)
  | group (pgid : Pid)
  deriving DecidableEq, Repr

inductive FileKind where
  | regular
  | directory
  | link
  | fifo
  | device
  deriving DecidableEq, Repr

structure FileStatus where
  kind : FileKind
  size : Nat
  permissions : Nat
  /-- Distinguishes files; files of no directory have none. -/
  identity : Option Nat
  deriving DecidableEq, Repr

inductive Call : Type → Type where
  -- descriptors
  | openFile (path : String) (flags : OpenFlags) (permissions : Nat) : Call (Except Errno Fd)
  | close (fd : Fd) : Call (Except Errno Unit)
  | read (fd : Fd) (count : Nat) : Call (Except Errno ByteArray)
  | write (fd : Fd) (data : ByteArray) : Call (Except Errno Nat)
  /-- Moves the place where a file is read next back by `count` bytes. -/
  | moveBack (fd : Fd) (count : Nat) : Call (Except Errno Unit)
  | pipe : Call (Except Errno (Fd × Fd))
  /-- Makes `target` refer to the open file of `source`. -/
  | duplicate (source target : Fd) : Call (Except Errno Unit)
  /-- Copies `source` to the lowest free descriptor from `lowest` on, closed on exec. -/
  | duplicateFrom (source lowest : Fd) : Call (Except Errno Fd)
  -- files and directories
  | changeDirectory (path : Path) : Call (Except Errno Unit)
  | workingDirectory : Call (Except Errno Path)
  | list (fd : Fd) : Call (Except Errno (List String))
  | inspect (path : String) (follow : Bool) : Call (Except Errno FileStatus)
  | inspectFd (fd : Fd) : Call (Except Errno FileStatus)
  | makeDirectory (path : String) (permissions : Nat) : Call (Except Errno Unit)
  | removeDirectory (path : String) : Call (Except Errno Unit)
  | unlink (path : String) : Call (Except Errno Unit)
  | changePermissions (fd : Fd) (permissions : Nat) : Call (Except Errno Unit)
  /-- Sets the mask of permissions withheld from new files, if one is given, and
  answers the mask before. -/
  | mask (new : Option Nat) : Call Nat
  /-- Sets how many descriptors the process may have, if a number is given, and answers the
  number before. -/
  | limitFiles (new : Option Nat) : Call Nat
  -- processes
  | processId : Call Pid
  | parentId : Call Pid
  | groupId : Call Pid
  /-- Puts a process into a group; 0 stands for the caller and for its own number. -/
  | setGroup (pid pgid : Pid) : Call (Except Errno Unit)
  | wait (pid : Pid) (options : WaitOptions) : Call (Except Errno WaitStatus)
  | kill (target : Target) (signal : Signal) : Call (Except Errno Unit)
  | setDisposition (signal : Signal) (disposition : Disposition) : Call (Except Errno Unit)
  /-- Replaces the program of the process. There is an answer only when that fails. -/
  | exec (path : String) (argv : List String) (env : Environment) : Call Errno
  /-- The same with the program that a name stands for along `PATH`. -/
  | execSearch (name : String) (argv : List String) (env : Environment) : Call Errno
  /-- Ends the process by SIGABRT. -/
  | abort : Call Empty
  | sleep (milliseconds : Nat) : Call Unit
  -- the terminal
  | isTerminal (fd : Fd) : Call Bool
  | foreground (fd : Fd) : Call (Except Errno Pid)
  | setForeground (fd : Fd) (pgid : Pid) : Call (Except Errno Unit)
  /-- Sets modes of the terminal. -/
  | setModes (fd : Fd) : Call (Except Errno Unit)
  -- signals that a process records
  /-- Records a signal from now on when it arrives, instead of acting on it. -/
  | record (signal : Signal) : Call (Except Errno Unit)
  | hasArrived (signal : Signal) : Call Bool
  | forget (signal : Signal) : Call Unit
  /-- Sets the group that a recorded SIGINT is passed on to; `none` stops that. -/
  | relayTo (pgid : Option Pid) : Call Unit

end JobShell
