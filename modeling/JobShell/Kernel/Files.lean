import JobShell.Kernel.Path
import JobShell.Kernel.Signals

/-!
The system calls on descriptors: opening, reading, writing, copying, closing. A call that
has to wait for somebody else blocks and is made again later.
-/
namespace JobShell

/-- How a system call comes out. -/
inductive Kernel.Outcome (β : Type) where
  | answer (value : β) (k : Kernel)
  /-- It cannot be answered yet. `moved` tells whether it changed something for others. -/
  | block (k : Kernel) (moved : Bool)
  /-- The process has ended. -/
  | gone (k : Kernel)
  /-- The process becomes a program of the system. -/
  | become (program : String) (argv : List String) (env : Environment) (k : Kernel)

namespace Kernel

def pipeCapacity : Nat := 65536

/-- The most that is written to a pipe in one piece. -/
def pipeAtom : Nat := 4096

/-- The lowest free descriptor, if the process may have another. -/
def freeFd? (p : Process) (lowest : Fd) : Option Fd :=
  let fd := p.files.firstFree lowest
  if fd < p.fileLimit then some fd else none

def install (k : Kernel) (p : Process) (fd : Fd) (slot : Slot) : Kernel :=
  k.setProcess { p with files := p.files.put fd slot }

def fileOf? (k : Kernel) (p : Process) (fd : Fd) : Option (OpenId × OpenFile) :=
  (p.files.get? fd).bind fun slot => (k.openFile? slot.file).map fun file => (slot.file, file)

/-- The letter and the word for what a process does. -/
def lifeText (life : Life) : String × String :=
  match life with
  | .running => ("S", "sleeping")
  | .stopped .. => ("T", "stopped")
  | .ended _ => ("Z", "zombie")

/-- A process as one line: what it is called and does, where it belongs, and zeros. -/
def statText (k : Kernel) (p : Process) : String :=
  let terminal : Pid × Pid := if k.tty.attached then (34816, k.tty.foreground) else (0, -1)
  let zeros := " ".intercalate (List.replicate 44 "0")
  s!"{p.pid} ({p.name}) {(lifeText p.life).1} {p.parent} {p.group} {k.session} " ++
    s!"{terminal.1} {terminal.2} {zeros}\n"

/-- A set of signals as sixteen hexadecimal digits, one bit for each signal. -/
def signalSetText (signals : List Signal) : String :=
  let digits := String.ofList (Nat.toDigits 16 (signals.foldl (fun n s => n ||| 1 <<< (s - 1)) 0))
  "".pushn '0' (16 - digits.length) ++ digits

/-- A process in lines with titles. -/
def statusText (p : Process) : String :=
  let life := lifeText p.life
  let mask := String.ofList (Nat.toDigits 8 p.mask)
  let lines := [
    ("Name", p.name), ("Umask", "".pushn '0' (4 - mask.length) ++ mask),
    ("State", s!"{life.1} ({life.2})"), ("Tgid", toString p.pid), ("Ngid", "0"),
    ("Pid", toString p.pid), ("PPid", toString p.parent), ("TracerPid", "0"), ("Threads", "1"),
    ("SigPnd", signalSetText []), ("ShdPnd", signalSetText p.held), ("SigBlk", signalSetText []),
    ("SigIgn", signalSetText p.ignored), ("SigCgt", signalSetText p.recorded)]
  String.join (lines.map fun (title, text) => title ++ ":\t" ++ text ++ "\n")

def processText (k : Kernel) (pid : Pid) (file : ProcessFile) : ByteArray :=
  match k.process? pid with
  | none => .empty
  | some p =>
    (match file with
    | .stat => k.statText p
    | .status => statusText p
    | .comm => p.name ++ "\n").toUTF8

/-- Gives a process a descriptor for a new open file. -/
def grant (k : Kernel) (p : Process) (file : OpenFile) (flags : OpenFlags) :
    Outcome (Except Errno Fd) :=
  match freeFd? p 0 with
  | none => .answer (.error .tooManyOpen) k
  | some fd =>
    let (id, k) := k.addOpenFile file
    .answer (.ok fd) (k.install p fd { file := id, closeOnExec := flags.closeOnExec })

/-- Opens a fifo. Each side waits for the other; what was opened before counts. -/
def openFifo (k : Kernel) (p : Process) (pipe : PipeId) (flags : OpenFlags) :
    Outcome (Except Errno Fd) :=
  match k.pipe? pipe, freeFd? p 0 with
  | none, _ => .answer (.error .io) k
  | _, none => .answer (.error .tooManyOpen) k
  | some before, some fd =>
    match p.opening with
    | some opening =>
      let ready := match flags.access with
        | .read => before.writers > 0 || before.writerOpens != opening.seen
        | _ => before.readers > 0 || before.readerOpens != opening.seen
      if ready then
        let p := { p with opening := none }
        .answer (.ok fd)
          (k.install p fd { file := opening.file, closeOnExec := flags.closeOnExec })
      else .block k false
    | none =>
      let reads := flags.access != .write
      let writes := flags.access != .read
      let k := k.updatePipe pipe fun pipe => { pipe with
        readers := pipe.readers + reads.toNat
        writers := pipe.writers + writes.toNat
        readerOpens := pipe.readerOpens + reads.toNat
        writerOpens := pipe.writerOpens + writes.toNat }
      let (id, k) := k.addOpenFile { subject := .pipe pipe, access := flags.access }
      let seen := if reads then before.writerOpens else before.readerOpens
      let ready := (reads && writes) ||
        (if reads then before.writers > 0 else before.readers > 0)
      if ready then
        .answer (.ok fd) (k.install p fd { file := id, closeOnExec := flags.closeOnExec })
      else .block (k.setProcess { p with opening := some { file := id, pipe, seen } }) true

def openPlace (k : Kernel) (p : Process) (place : Place) (flags : OpenFlags) :
    Outcome (Except Errno Fd) :=
  if isDirectory k place then
    if flags.access != .read || flags.create then .answer (.error .isDirectory) k
    else k.grant p { subject := .directory place, access := .read } flags
  else
    match place with
    | .processFile pid file =>
      k.grant p { subject := .text (k.processText pid file), access := .read } flags
    | .pipe id => k.openFifo p id flags
    | .processDir _ | .processFds _ => .answer (.error .isDirectory) k
    | .node id =>
      let file : OpenFile :=
        { subject := .node id, access := flags.access, append := flags.append }
      match (k.node? id).map Node.content with
      | some (.fifo pipe) => k.openFifo p pipe flags
      | some (.device .terminal) =>
        if k.tty.attached then k.grant p { file with subject := .device .terminal } flags
        else .answer (.error .noDevice) k
      | some (.device device) => k.grant p { file with subject := .device device } flags
      | some (.file data) =>
        match freeFd? p 0 with
        | none => .answer (.error .tooManyOpen) k
        | some _ =>
          let data := if flags.truncate then ByteArray.empty else data
          let k := match k.node? id with
            | some node => k.setNode id { node with content := .file data }
            | none => k
          k.grant p file flags
      | some (.program _) =>
        if flags.access == .read then k.grant p { subject := .text .empty, access := .read } flags
        else .answer (.error .textBusy) k
      | _ => .answer (.error .loop) k

def link (k : Kernel) (parent : NodeId) (name : String) (node : Node) : NodeId × Kernel :=
  let (id, k) := k.addNode node
  match k.node? parent with
  | some { content := .directory entries up, permissions, removed } =>
    (id, k.setNode parent
      { content := .directory (entries ++ [(name, id)]) up, permissions, removed })
  | _ => (id, k)

def acceptsNames (k : Kernel) (id : NodeId) : Bool :=
  match k.node? id with
  | some { content := .directory .., removed := false, .. } => true
  | _ => false

def openPath (k : Kernel) (p : Process) (path : String) (flags : OpenFlags) (permissions : Nat) :
    Outcome (Except Errno Fd) :=
  match k.resolve p true path with
  | .error e => .answer (.error e) k
  | .ok (.found place) => k.openPlace p place flags
  | .ok (.missing parent name) =>
    if !flags.create then .answer (.error .noEntry) k
    else if path.endsWith "/" then .answer (.error .isDirectory) k
    else if !k.acceptsNames parent then .answer (.error .noEntry) k
    else
      match freeFd? p 0 with
      | none => .answer (.error .tooManyOpen) k
      | some _ =>
        let mode := permissions &&& (0o777 ^^^ (p.mask &&& 0o777))
        let (id, k) := k.link parent name { content := .file .empty, permissions := mode }
        k.openPlace p (.node id) flags

def close (k : Kernel) (p : Process) (fd : Fd) : Except Errno Unit × Kernel :=
  match p.files.get? fd with
  | none => (.error .badFile, k)
  | some slot => (.ok (), (k.setProcess { p with files := p.files.erase fd }).release slot.file)

/-- The first bytes that a pipe holds. -/
def takeFromPipe (k : Kernel) (id : PipeId) (count : Nat) : Outcome (Except Errno ByteArray) :=
  match k.pipe? id with
  | none => .answer (.error .io) k
  | some pipe =>
    if pipe.data.size > 0 then
      .answer (.ok (pipe.data.extract 0 count)) <|
        k.updatePipe id fun pipe => { pipe with data := pipe.data.extract count pipe.data.size }
    else if pipe.writers > 0 then .block k false
    else .answer (.ok .empty) k

/-- A line typed at the terminal. Only the foreground may read it; a process of another
group is stopped. -/
def takeTyped (k : Kernel) (p : Process) (count : Nat) : Outcome (Except Errno ByteArray) :=
  if k.tty.attached && p.group != k.tty.foreground then
    if p.ignored.contains Signal.sigttin then .answer (.error .io) k
    else .block (k.signalGroup p.group Signal.sigttin) true
  else
    match k.tty.typed with
    | [] => .answer (.ok .empty) k
    | line :: lines =>
      let rest := line.extract count line.size
      let lines := if rest.isEmpty then lines else rest :: lines
      .answer (.ok (line.extract 0 count)) { k with tty := { k.tty with typed := lines } }

def read (k : Kernel) (p : Process) (fd : Fd) (count : Nat) : Outcome (Except Errno ByteArray) :=
  match k.fileOf? p fd with
  | none => .answer (.error .badFile) k
  | some (id, file) =>
    if file.access == .write then .answer (.error .badFile) k
    else
      let piece (data : ByteArray) : Outcome (Except Errno ByteArray) :=
        let chunk := data.extract file.offset (file.offset + count)
        .answer (.ok chunk) <|
          k.updateOpenFile id fun file => { file with offset := file.offset + chunk.size }
      match file.subject with
      | .directory _ => .answer (.error .isDirectory) k
      | .pipe pipe => k.takeFromPipe pipe count
      | .text data => piece data
      | .device .null => .answer (.ok .empty) k
      | .device .zero | .device .full => .answer (.ok ⟨Array.replicate count 0⟩) k
      | .device .terminal => k.takeTyped p count
      | .node node =>
        match (k.node? node).map Node.content with
        | some (.file data) => piece data
        | _ => .answer (.error .invalid) k

/-- Bytes of a file after writing at an offset, which may lie behind its end. -/
def overwrite (data : ByteArray) (offset : Nat) (piece : ByteArray) : ByteArray :=
  let front := if offset ≤ data.size then data.extract 0 offset
    else data ++ ⟨Array.replicate (offset - data.size) 0⟩
  front ++ piece ++ data.extract (offset + piece.size) data.size

/-- Writes to a pipe what there is room for. Small pieces are written whole or not yet.
Without a reader the writer gets SIGPIPE. -/
def putIntoPipe (k : Kernel) (p : Process) (id : PipeId) (data : ByteArray) :
    Outcome (Except Errno Nat) :=
  match k.pipe? id with
  | none => .answer (.error .io) k
  | some pipe =>
    if pipe.readers = 0 then .answer (.error .brokenPipe) (k.signalProcess p.pid Signal.sigpipe)
    else
      let room := pipeCapacity - pipe.data.size
      if data.isEmpty then .answer (.ok 0) k
      else if room = 0 || (data.size ≤ pipeAtom && room < data.size) then .block k false
      else
        let piece := data.extract 0 room
        .answer (.ok piece.size) <|
          k.updatePipe id fun pipe => { pipe with data := pipe.data ++ piece }

def write (k : Kernel) (p : Process) (fd : Fd) (data : ByteArray) : Outcome (Except Errno Nat) :=
  match k.fileOf? p fd with
  | none => .answer (.error .badFile) k
  | some (id, file) =>
    if file.access == .read then .answer (.error .badFile) k
    else
      match file.subject with
      | .directory _ | .text _ => .answer (.error .badFile) k
      | .pipe pipe => k.putIntoPipe p pipe data
      | .device .full => .answer (.error .noSpace) k
      | .device _ => .answer (.ok data.size) k
      | .node node =>
        match k.node? node with
        | some { content := .file old, permissions, removed } =>
          let offset := if file.append then old.size else file.offset
          let k := k.setNode node
            { content := .file (overwrite old offset data), permissions, removed }
          .answer (.ok data.size) <|
            k.updateOpenFile id fun file => { file with offset := offset + data.size }
        | _ => .answer (.error .invalid) k

/-- Moves the offset of a file back. Nothing else has an offset. -/
def moveBack (k : Kernel) (p : Process) (fd : Fd) (count : Nat) : Except Errno Unit × Kernel :=
  match k.fileOf? p fd with
  | none => (.error .badFile, k)
  | some (id, file) =>
    match file.subject with
    | .node _ =>
      (.ok (), k.updateOpenFile id fun file => { file with offset := file.offset - count })
    | _ => (.error .invalid, k)

/-- A new pipe with one open file for each end. -/
def addPipeEnds (k : Kernel) : OpenId × OpenId × Kernel :=
  let (pipe, k) := k.addPipe { readers := 1, writers := 1 }
  let (readEnd, k) := k.addOpenFile { subject := .pipe pipe, access := .read }
  let (writeEnd, k) := k.addOpenFile { subject := .pipe pipe, access := .write }
  (readEnd, writeEnd, k)

/-- Makes a pipe; its ends get the two lowest free descriptors. -/
def makePipe (k : Kernel) (p : Process) : Except Errno (Fd × Fd) × Kernel :=
  match freeFd? p 0 with
  | none => (.error .tooManyOpen, k)
  | some reading =>
    let next := p.files.put reading { file := 0 }
    match freeFd? { p with files := next } 0 with
    | none => (.error .tooManyOpen, k)
    | some writing =>
      let (readEnd, writeEnd, k) := k.addPipeEnds
      let files := (p.files.put reading { file := readEnd }).put writing { file := writeEnd }
      (.ok (reading, writing), k.setProcess { p with files })

def duplicate (k : Kernel) (p : Process) (source target : Fd) : Except Errno Unit × Kernel :=
  match p.files.get? source with
  | none => (.error .badFile, k)
  | some slot =>
    if source = target then (.ok (), k)
    else if p.fileLimit ≤ target then (.error .badFile, k)
    else
      let before := p.files.get? target
      let k := (k.install p target { file := slot.file }).retain slot.file
      match before with
      | some old => (.ok (), k.release old.file)
      | none => (.ok (), k)

def duplicateFrom (k : Kernel) (p : Process) (source lowest : Fd) : Except Errno Fd × Kernel :=
  match p.files.get? source with
  | none => (.error .badFile, k)
  | some slot =>
    if p.fileLimit ≤ lowest then (.error .invalid, k)
    else
      match freeFd? p lowest with
      | none => (.error .tooManyOpen, k)
      | some fd =>
        (.ok fd, (k.install p fd { file := slot.file, closeOnExec := true }).retain slot.file)

end Kernel

end JobShell
