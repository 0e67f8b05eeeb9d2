import JobShell.Kernel.Directories
import JobShell.Kernel.Processes

/-!
Every system call, put to the part of the system that answers it.
-/
namespace JobShell.Kernel

/-- An answer that is there at once. -/
def Outcome.now : β × Kernel → Outcome β
  | (value, k) => .answer value k

def perform (k : Kernel) (p : Process) : Call β → Outcome β
  | .openFile path flags permissions => k.openPath p path flags permissions
  | .close fd => .now (k.close p fd)
  | .read fd count => k.read p fd count
  | .write fd data => k.write p fd data
  | .moveBack fd count => .now (k.moveBack p fd count)
  | .pipe => .now (k.makePipe p)
  | .duplicate source target => .now (k.duplicate p source target)
  | .duplicateFrom source lowest => .now (k.duplicateFrom p source lowest)
  | .changeDirectory path => .now (k.changeDirectory p path)
  | .workingDirectory => .answer (k.workingDirectory p) k
  | .list fd => .answer (k.listFd p fd) k
  | .inspect path follow => .answer (k.inspect p path follow) k
  | .inspectFd fd => .answer (k.inspectFd p fd) k
  | .makeDirectory path permissions => .now (k.makeDirectory p path permissions)
  | .removeDirectory path => .now (k.removeDirectory p path)
  | .unlink path => .now (k.unlink p path)
  | .changePermissions fd permissions => .now (k.changePermissions p fd permissions)
  | .mask new => .answer p.mask (k.setProcess { p with mask := new.getD p.mask })
  | .limitFiles new =>
    .answer p.fileLimit (k.setProcess { p with fileLimit := new.getD p.fileLimit })
  | .processId => .answer p.pid k
  | .parentId => .answer p.parent k
  | .groupId => .answer p.group k
  | .setGroup pid pgid => .now (k.setGroup p pid pgid)
  | .wait pid options => k.wait p pid options
  | .kill target signal => .now (k.kill target signal)
  | .setDisposition signal disposition => .now (k.setDisposition p signal disposition)
  | .exec path argv env => k.exec p path argv env
  | .execSearch name argv env => k.execSearch p name argv env
  | .abort => k.abort p
  | .sleep milliseconds => k.sleep p milliseconds
  | .isTerminal fd => .answer (k.isTerminal p fd) k
  | .foreground fd => .answer (k.foreground p fd) k
  | .setForeground fd pgid => k.setForeground p fd pgid
  | .setModes fd => k.setModes p fd
  | .record signal => .now (k.record p signal)
  | .hasArrived signal => .answer (p.arrived.contains signal) k
  | .forget signal =>
    .answer () (k.setProcess { p with arrived := p.arrived.filter (· != signal) })
  | .relayTo pgid => .answer () (k.setProcess { p with relay := pgid })

end JobShell.Kernel
