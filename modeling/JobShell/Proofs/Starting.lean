import JobShell.Proofs.Contract
import JobShell.Startup

/-!
A shell from its start to its end. It comes up with a terminal, or with none, and asks for its
directory before it takes charge of the terminal; then it goes to its input, which it opens first
if that is a script.
-/
namespace JobShell

open Program

/-- A shell that comes up asks for its directory once its terminal is open, and takes charge of
the terminal last. It has no jobs yet, and nothing has gone wrong. -/
theorem runs_startShell {options : Options} {environment : Environment} {home : Option Path}
    {ctx : Context} {t : List Event} (h : Runs (startShell options environment home) t ctx) :
    ∃ (typed interactive : Bool) (cwd : Except Errno Path) (opened charged : Terminal)
      (t₁ t₂ : List Event),
      t = .call (.isTerminal 0) typed :: (t₁ ++ .call .workingDirectory cwd :: t₂) ∧
      interactive = (options.command.isNone && options.script.isNone && typed) ∧
      Runs (if interactive || options.monitor then Terminal.openControlling
        else Terminal.detached) t₁ opened ∧
      Runs opened.takeCharge t₂ charged ∧
      ctx =
        { terminal := charged, interactive, environment, home
          cwd := cwd.toOption.getD (.ofText "/") } := by
  simp only [startShell, bind_eq, pure_eq] at h
  obtain ⟨_, t, typed, rfl, hasked, h⟩ := runs_bind.mp h
  generalize hinteractive : (options.command.isNone && options.script.isNone && typed) =
    interactive at h
  -- whichever terminal is opened, what follows is the same
  obtain ⟨t₁, _, opened, rfl, hopened, h⟩ : ∃ t₁ u opened, t = t₁ ++ u ∧
      Runs (if interactive || options.monitor then Terminal.openControlling
        else Terminal.detached) t₁ opened ∧
      Runs ((Context.create opened interactive environment home).bind fun ctx =>
        ctx.terminal.takeCharge.bind fun terminal => done { ctx with terminal }) u ctx := by
    split at h
    · rename_i hopens
      rw [if_pos hopens]
      exact runs_bind.mp h
    · rename_i hopens
      rw [if_neg hopens]
      exact runs_bind.mp h
  obtain ⟨_, _, created, rfl, hcreated, h⟩ := runs_bind.mp h
  obtain ⟨t₂, _, charged, rfl, hcharged, h⟩ := runs_bind.mp h
  obtain ⟨_, _, cwd, rfl, htold, hmade⟩ := runs_bind.mp hcreated
  obtain rfl := runs_ask.mp hasked
  obtain rfl := runs_ask.mp htold
  obtain ⟨rfl, rfl⟩ := runs_done.mp hmade
  obtain ⟨rfl, rfl⟩ := runs_done.mp h
  exact ⟨typed, interactive, cwd, opened, charged, t₁, t₂, by simp, hinteractive.symm, hopened,
    hcharged, rfl⟩

/-- How a script is opened. -/
def opening (path : String) : Call (Except Errno Fd) :=
  .openFile path { access := .read, closeOnExec := true } 0

end JobShell
