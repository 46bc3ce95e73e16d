/-!
# Running a program

A program starts up, waits until it is asked to end, and shuts down. If it cannot start, nothing is shut
down, and the program ends with an error.
-/

namespace FlowCompiler.Live

/-- What a program does at its start and at its end. -/
structure Phases (σ : Type) where
  startup : σ → σ × Option String
  shutdown : σ → σ

def Phases.run {σ : Type} (p : Phases σ) (s : σ) : σ × Option String :=
  match p.startup s with
  | (s, some e) => (s, some e)
  | (s, none) => (p.shutdown s, none)

/-- The exit code of a program and what it writes about a failure. -/
def exitStatus : Option String → Nat × String
  | none => (0, "")
  | some e => (1, "error: " ++ e ++ "\n")

end FlowCompiler.Live
