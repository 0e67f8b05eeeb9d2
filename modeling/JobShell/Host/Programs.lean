import JobShell.CommandLine
import JobShell.Host.Editor
import JobShell.Kernel.Machine
import JobShell.Script.Interpreter
import JobShell.Utility.ByteMap
import JobShell.Utility.Cat
import JobShell.Utility.Fields
import JobShell.Utility.Grep
import JobShell.Utility.Lines

/-!
The programs of a host: the utilities, `sh`, and the shell itself.
-/
namespace JobShell.Host

/-- A utility as a program, which calls itself what it was called. -/
def named (utility : String → Utility.Arguments → Program Status) (argv : List String)
    (_ : Environment) : Program Empty :=
  Utility.run (utility (argv.headD "") argv.tail)

/-- What is found along `PATH`. -/
def utilities : List (String × (List String → Environment → Program Empty)) :=
  [("cat", named Utility.cat),
   ("cut", named Utility.cut),
   ("echo", named Utility.echo),
   ("env", fun argv env => Utility.run (Utility.env (argv.headD "") env argv.tail)),
   ("false", named fun _ _ => return 1),
   ("grep", named Utility.grep),
   ("head", named Utility.head),
   ("ls", named Utility.ls),
   ("mkdir", named Utility.mkdir),
   ("printf", named Utility.printf),
   ("pwd", named Utility.pwd),
   ("rm", named Utility.rm),
   ("rmdir", named Utility.rmdir),
   ("sh", Script.sh),
   ("sleep", named Utility.sleep),
   ("sort", named Utility.sort),
   ("stty", named Utility.stty),
   ("tail", named Utility.tail),
   ("tr", named Utility.tr),
   ("true", named fun _ _ => return 0),
   ("wc", named Utility.wc)]

/-- What has to be called by its path. -/
def shellPrograms : List (String × (List String → Environment → Program Empty)) :=
  [("jcsh", fun argv env => commandLine libraries argv.tail env),
   ("myint", named Utility.myint),
   ("myspin", named Utility.myspin)]

def library : Library := fun name argv env =>
  match (utilities ++ shellPrograms).lookup name with
  | some program => program argv env
  | none => .exit 127

end JobShell.Host
