import JobShell.Main
import JobShell.Proofs.Foreground
import JobShell.Proofs.Lexing
import JobShell.Proofs.PipesWired
import JobShell.Proofs.Rejection
import JobShell.Proofs.Session
import JobShell.Proofs.Line
import JobShell.Proofs.Indifference
import JobShell.Proofs.LastStatus
import JobShell.Proofs.Cut
import JobShell.Proofs.Reaping
import JobShell.Proofs.Semicolon
import JobShell.Proofs.WorkingDirectory
import JobShell.Proofs.Relaying
import JobShell.Proofs.Interrupts
import JobShell.Proofs.Writing
import JobShell.Proofs.Groups
import JobShell.Proofs.Redirecting
import JobShell.Proofs.ReadLoop
import JobShell.Proofs.InputLines
import JobShell.Proofs.StatusRange
import JobShell.Proofs.InputPaths
import JobShell.Proofs.Concatenation
import JobShell.Proofs.JobIds
import JobShell.Proofs.FinishedJobs
import JobShell.Proofs.WaitedStages
import JobShell.Proofs.ShownText
import JobShell.Proofs.NulWords
import JobShell.Proofs.Numerals
import JobShell.Proofs.Permission
import JobShell.Proofs.Sitting
import JobShell.Proofs.ExitingStage
import JobShell.Proofs.LastStage
import JobShell.Proofs.ExitStatus
import JobShell.Proofs.Persistence
import JobShell.Proofs.HostRuns
import JobShell.Proofs.SystemGroups
