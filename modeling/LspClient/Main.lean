import LspClient.Probe.Program

/-!
# The command line program

Collects what surrounds the run, hands it to `Program.run`, and prints what
that comes to.
-/

open LspClient

/-- The paths that arguments may name: an argument itself, or what follows the
sign of equality in it. -/
def mentionedPaths (args : List String) : List String :=
  args ++ args.map fun arg => String.ofList ((arg.toList.dropWhile (· != '=')).drop 1)

/-- The text of a file, if there is one. -/
def textAt? (path : String) : IO (Option (String × String)) := do
  try
    let text ← IO.FS.readFile path
    return some (path, text)
  catch _ => return none

/-- A variable of the environment, if it is set. -/
def entry? (name : String) : IO (Option (String × String)) := do
  return (← IO.getEnv name).map fun v => (name, v)

/-- The canonical form of a path, if it leads to something. -/
def canonical? (path : String) : IO (Option (String × String)) := do
  try
    let form ← IO.FS.realPath path
    return some (path, form.toString)
  catch _ => return none

/-- The current directory, unless it is gone. -/
def current? : IO (Option String) := do
  try
    let place ← IO.currentDir
    return some place.toString
  catch _ => return none

/-- Everything around the run. -/
def surroundings (args : List String) : IO Program.Surroundings := do
  let texts ← (mentionedPaths args).filterMapM textAt?
  let environment ← Report.variableNames.filterMapM entry?
  let forms ← (mentionedPaths args).filterMapM canonical?
  let current? ← current?
  let stdout ← IO.getStdout
  let standard := Files.standard
  return { files := { standard with texts := standard.texts ++ texts }, environment,
           terminal := ← stdout.isTty,
           places := { canonical? := fun path => forms.lookup path, current? } }

/-- Runs the program. -/
def main (args : List String) : IO UInt32 := do
  let outcome := Program.run (← surroundings args) args
  IO.print outcome.output
  match outcome.complaint with
  | some complaint => IO.eprintln complaint
  | none => pure ()
  return UInt32.ofNat outcome.exitCode
