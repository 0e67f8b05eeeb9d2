/-!
Signals by number. Those of 1 to 31 have names; 32 to 64 are the real-time signals,
which carry no name and which the shell cannot tell apart.
-/
namespace JobShell

abbrev Signal := Nat

namespace Signal

def sighup : Signal := 1
def sigint : Signal := 2
def sigquit : Signal := 3
def sigabrt : Signal := 6
def sigkill : Signal := 9
def sigpipe : Signal := 13
def sigterm : Signal := 15
def sigchld : Signal := 17
def sigcont : Signal := 18
def sigstop : Signal := 19
def sigtstp : Signal := 20
def sigttin : Signal := 21
def sigttou : Signal := 22

/-- Names of the signals from 1 on, without the `SIG` in front. -/
def names : List String :=
  ["HUP", "INT", "QUIT", "ILL", "TRAP", "ABRT", "BUS", "FPE", "KILL", "USR1", "SEGV",
   "USR2", "PIPE", "ALRM", "TERM", "STKFLT", "CHLD", "CONT", "STOP", "TSTP", "TTIN",
   "TTOU", "URG", "XCPU", "XFSZ", "VTALRM", "PROF", "WINCH", "IO", "PWR", "SYS"]

def named? (name : String) : Option Signal := (names.idxOf? name).map (· + 1)

/-- The signals with a name. -/
def isNamed (n : Signal) : Bool := 1 ≤ n && n ≤ 31

/-- What a signal does to a process that leaves it alone. -/
inductive Effect where
  | terminate
  | ignore
  | stop
  | resume
  deriving DecidableEq, Repr

def effect (n : Signal) : Effect :=
  if n = sigcont then .resume
  else if n = sigchld ∨ n = 23 ∨ n = 28 then .ignore
  else if n = sigstop ∨ n = sigtstp ∨ n = sigttin ∨ n = sigttou then .stop
  else .terminate

end Signal

/-- What a process does on a signal: the default, or nothing. -/
inductive Disposition where
  | default
  | ignore
  deriving DecidableEq, Repr

/-- The signals whose disposition can be chosen. -/
def Signal.canInstall (n : Signal) : Bool :=
  n.isNamed && n != Signal.sigkill && n != Signal.sigstop

/-- The signals that a new process must meet with their default, whatever the shell
does with them. -/
def childDefaultSignals : List Signal :=
  [Signal.sigint, Signal.sigquit, Signal.sigtstp, Signal.sigttin, Signal.sigttou, Signal.sigpipe]

theorem canInstall_childDefaultSignals :
    childDefaultSignals.all Signal.canInstall = true := by decide

end JobShell
