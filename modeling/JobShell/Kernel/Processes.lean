import JobShell.Kernel.Files

/-!
The system calls on processes: starting one, groups, waiting, becoming a program, and
the terminal's foreground.
-/
namespace JobShell.Kernel

/-- A copy of a process with a number of its own, running. -/
def Process.copy (p : Process) (pid : Pid) : Process :=
  { p with
    pid, parent := p.pid, life := .running, held := [], opening := none, wakeAt := none
    replaced := false }

/-- Starts a copy of a process, with the same descriptors. -/
def spawn (k : Kernel) (p : Process) : Pid × Kernel :=
  let child := p.copy k.nextPid
  let k := p.files.values.foldl (fun k slot => k.retain slot.file) k
  (child.pid, { k with processes := k.processes ++ [child], nextPid := k.nextPid + 1 })

/-- Puts a process, or a child that is still the program it was started as, into a group of the
session. -/
def setGroup (k : Kernel) (p : Process) (pid pgid : Pid) : Except Errno Unit × Kernel :=
  let pid := if pid = 0 then p.pid else pid
  let pgid := if pgid = 0 then pid else pgid
  if pgid < 0 then (.error .invalid, k)
  else
    match k.process? pid with
    | none => (.error .noProcess, k)
    | some q =>
      if q.pid ≠ p.pid ∧ q.parent ≠ p.pid then (.error .noProcess, k)
      else if q.pid ≠ p.pid ∧ q.replaced then (.error .access, k)
      else if pgid = q.pid ∨ k.processes.any (fun r => r.group == pgid) then
        (.ok (), k.setProcess { q with group := pgid })
      else (.error .perm, k)

/-- Waits for a child. One that has ended is collected; a stop is reported once. -/
def wait (k : Kernel) (p : Process) (pid : Pid) (options : WaitOptions) :
    Outcome (Except Errno WaitStatus) :=
  match k.process? pid with
  | none => .answer (.error .noChild) k
  | some child =>
    if child.parent ≠ p.pid then .answer (.error .noChild) k
    else
      match child.life with
      | .ended status => .answer (.ok status) (k.removeProcess pid)
      | .stopped signal false =>
        if options.untraced then
          .answer (.ok (.stopped signal)) (k.setProcess { child with life := .stopped signal true })
        else nothingYet
      | _ => nothingYet
where
  nothingYet : Outcome (Except Errno WaitStatus) :=
    if options.noHang then .answer (.ok .stillAlive) k else .block k false

def setDisposition (k : Kernel) (p : Process) (signal : Signal) (disposition : Disposition) :
    Except Errno Unit × Kernel :=
  if !signal.canInstall then (.error .invalid, k)
  else
    let ignored := p.ignored.filter (· != signal)
    let recorded := p.recorded.filter (· != signal)
    match disposition with
    | .default => (.ok (), k.setProcess { p with ignored, recorded })
    | .ignore => (.ok (), k.setProcess { p with ignored := signal :: ignored, recorded })

def record (k : Kernel) (p : Process) (signal : Signal) : Except Errno Unit × Kernel :=
  if !signal.canInstall then (.error .invalid, k)
  else
    (.ok (), k.setProcess { p with
      ignored := p.ignored.filter (· != signal)
      recorded := signal :: p.recorded.filter (· != signal) })

/-- The longest argument and the most arguments that a program takes, in bytes. -/
def maxArgument : Nat := 131072
def maxArguments : Nat := 2097152

def argumentsTooBig (argv : List String) (env : Environment) : Bool :=
  let words := argv.foldl (fun n a => n + a.utf8ByteSize + 9) 0
  let all := env.foldl (fun n v => n + v.1.utf8ByteSize + v.2.utf8ByteSize + 10) words
  argv.any (fun a => maxArgument ≤ a.utf8ByteSize) || maxArguments < all

def isSpaceByte (b : UInt8) : Bool := b == 32 || b == 9

/-- The interpreter that the first line of a script names, with its one argument. -/
def interpreter? (data : ByteArray) : Option (String × Option String) := do
  match data.toList with
  | 35 :: 33 :: bytes =>
    let line := (bytes.takeWhile (· != 10)).dropWhile isSpaceByte
    let path := line.takeWhile fun b => !isSpaceByte b
    let rest := (line.dropWhile fun b => !isSpaceByte b).dropWhile isSpaceByte
    let rest := (rest.reverse.dropWhile isSpaceByte).reverse
    let path ← String.fromUTF8? ⟨path.toArray⟩
    let rest ← String.fromUTF8? ⟨rest.toArray⟩
    if path.isEmpty then none
    else some (path, if rest.isEmpty then none else some rest)
  | _ => none

/-- Whether somebody may write to a file, which then cannot be run. -/
def isBeingWritten (k : Kernel) (id : NodeId) : Bool :=
  k.openFiles.any fun file =>
    0 < file.references && file.access != .read && (match file.subject with
      | .node other => other == id
      | _ => false)

/-- The program that a file is run by, and its arguments. Scripts may name scripts as their
interpreters, `depth` times. -/
def programFor (k : Kernel) (p : Process) (depth : Nat) (path : String) (argv : List String) :
    Except Errno (String × List String) :=
  match k.resolve p true path with
  | .error e => .error e
  | .ok (.missing ..) => .error .noEntry
  | .ok (.found (.node id)) =>
    match k.node? id with
    | some { content := .program name, .. } => .ok (name, argv)
    | some { content := .file data, permissions, .. } =>
      if permissions &&& 0o111 = 0 then .error .access
      else if k.isBeingWritten id then .error .textBusy
      else
        match interpreter? data, depth with
        | none, _ => .error .noExecFormat
        | some _, 0 => .error .loop
        | some (file, argument), depth + 1 =>
          programFor k p depth file (file :: argument.toList ++ path :: argv.tail)
    | _ => .error .access
  | .ok (.found _) => .error .access

/-- The last name of a path, cut to what the system shows of it. -/
def shownName (path : String) : String :=
  let name := ((path.splitOn "/").getLast?).getD path
  String.ofList (name.toList.take 15)

/-- Becomes the program in a file. Descriptors marked for it are closed, and signals are no
longer recorded. -/
def exec (k : Kernel) (p : Process) (path : String) (argv : List String) (env : Environment) :
    Outcome Errno :=
  if argumentsTooBig argv env then .answer .tooBig k
  else
    match programFor k p 4 path argv with
    | .error e => .answer e k
    | .ok (name, args) =>
      let closing := (p.files.entries.filter fun e => e.2.closeOnExec).map fun e => e.2.file
      let kept : Numbered Slot := ⟨p.files.entries.filter fun e => !e.2.closeOnExec⟩
      let k := k.setProcess { p with
        files := kept, recorded := [], arrived := [], relay := none, name := shownName path
        replaced := true }
      .become name args env (closing.foldl release k)

/-- Becomes the program in the file, or lets `sh` run it as a script. -/
def execFile (k : Kernel) (p : Process) (path : String) (argv : List String)
    (env : Environment) : Outcome Errno :=
  match k.exec p path argv env with
  | .answer e k =>
    if e = .noExecFormat then k.exec p "/bin/sh" ("/bin/sh" :: path :: argv.tail) env
    else .answer e k
  | outcome => outcome

/-- The errors after which the next directory is tried. -/
def isPassedOver (e : Errno) : Bool :=
  [.noEntry, .notDirectory, .access, .stale, .wrongDevice, .timedOut].contains e

/-- Tries the directories in order. One where the program may not be run is passed over like
one that lacks it, and is then the reason given in the end. -/
def execIn (p : Process) (name : String) (argv : List String) (env : Environment)
    (denied : Bool) (last : Errno) : List String → Kernel → Outcome Errno
  | [], k => .answer (if denied then .access else last) k
  | dir :: dirs, k =>
    match k.execFile p (if dir.isEmpty then name else dir ++ "/" ++ name) argv env with
    | .answer e k =>
      if isPassedOver e then execIn p name argv env (denied || e = .access) e dirs k
      else .answer e k
    | outcome => outcome

/-- Becomes the program with the given name. A name with a slash is a path. -/
def execSearch (k : Kernel) (p : Process) (name : String) (argv : List String)
    (env : Environment) : Outcome Errno :=
  if name.isEmpty then .answer .noEntry k
  else if name.contains '/' then k.execFile p name argv env
  else if maxNameLength < name.utf8ByteSize then .answer .nameTooLong k
  else execIn p name argv env false .noEntry
    (((env.lookup "PATH").getD "/bin:/usr/bin").splitOn ":") k

def abort (k : Kernel) (p : Process) : Outcome Empty :=
  .gone (k.terminate p (.signaled Signal.sigabrt))

def sleep (k : Kernel) (p : Process) (milliseconds : Nat) : Outcome Unit :=
  match p.wakeAt with
  | some time =>
    if time ≤ k.clock then .answer () (k.setProcess { p with wakeAt := none })
    else .block k false
  | none => .block (k.setProcess { p with wakeAt := some (k.clock + milliseconds) }) true

def isTerminal (k : Kernel) (p : Process) (fd : Fd) : Bool :=
  match k.fileOf? p fd with
  | some (_, file) => file.isTerminal
  | none => false

/-- Whether the descriptor refers to the controlling terminal. -/
def checkTerminal (k : Kernel) (p : Process) (fd : Fd) : Except Errno Unit :=
  match k.fileOf? p fd with
  | none => .error .badFile
  | some (_, file) =>
    if file.isTerminal && k.tty.attached then .ok ()
    else .error .notTerminal

def foreground (k : Kernel) (p : Process) (fd : Fd) : Except Errno Pid :=
  (k.checkTerminal p fd).map fun () => k.tty.foreground

/-- A process outside the foreground that changes the terminal is stopped, unless it ignores
that. -/
def mayChangeTerminal (k : Kernel) (p : Process) : Bool :=
  p.group == k.tty.foreground || p.ignored.contains Signal.sigttou

def setForeground (k : Kernel) (p : Process) (fd : Fd) (pgid : Pid) :
    Outcome (Except Errno Unit) :=
  match k.checkTerminal p fd with
  | .error e => .answer (.error e) k
  | .ok () =>
    if !k.mayChangeTerminal p then .block (k.signalGroup p.group Signal.sigttou) true
    else if k.processes.any fun q => q.group == pgid then
      .answer (.ok ()) { k with tty := { k.tty with foreground := pgid } }
    else .answer (.error .noProcess) k

def setModes (k : Kernel) (p : Process) (fd : Fd) : Outcome (Except Errno Unit) :=
  match k.fileOf? p fd with
  | none => .answer (.error .badFile) k
  | some (_, file) =>
    if !file.isTerminal then .answer (.error .notTerminal) k
    else if k.tty.attached && !k.mayChangeTerminal p then
      .block (k.signalGroup p.group Signal.sigttou) true
    else .answer (.ok ()) k

end JobShell.Kernel
