import LspClient.Child.Shell

/-!
# Running commands

How words are expanded and commands are run. Expanding may run a script and
running expands words, so the two are one recursion. The recursion counts
down, and a run that gets to the end of the count says so: it is neither
finished nor waiting.

Like all of a job, commands are only what the program runs with (`Child.Job`).
-/

namespace LspClient.Child

/-- A part of an expanded word. -/
inductive Mark where
  | char (c : Char)
  /-- a blank at which the word is split -/
  | blank (c : Char)
  /-- the place between two parameters -/
  | boundary
  /-- a place where quotes stood, which makes a field even of nothing -/
  | quote
  deriving DecidableEq, Repr

namespace Mark

/-- The marks of a text. -/
def ofText (quoted : Bool) (cs : List Char) : List Mark :=
  if quoted then .quote :: cs.map .char
  else cs.map fun c => if Shell.isBlank c then .blank c else .char c

/-- The text of marks that are not split. -/
def joined (ms : List Mark) : List Char :=
  ms.filterMap fun
    | .char c => some c
    | .blank c => some c
    | _ => none

/-- The fields that marks are split into, after the characters of the one that
is open. -/
def fieldsFrom (current : Option (List Char)) : List Mark → List (List Char)
  | [] => current.toList
  | .char c :: rest => fieldsFrom (some (current.getD [] ++ [c])) rest
  | .quote :: rest => fieldsFrom (some (current.getD [])) rest
  | .blank _ :: rest => current.toList ++ fieldsFrom none rest
  | .boundary :: rest => current.getD [] :: fieldsFrom (some []) rest

/-- The fields of marks. -/
def fields (ms : List Mark) : List (List Char) :=
  fieldsFrom none ms

end Mark

/-- An expansion: its marks, the shell after it, and why it stopped. -/
structure Expanded where
  marks : List Mark
  shell : Shell
  stop : Option Stop := none

namespace Shell

/-- The marks of a parameter. All parameters at once are separate fields if
they are quoted. -/
def parameterMarks (s : Shell) (quoted : Bool) (name default : List Char) : List Mark :=
  if quoted ∧ name = ['@'] then
    [Mark.boundary].intercalate ((s.args.drop 1).map (Mark.ofText true))
  else
    let value := (s.parameter? name).getD []
    Mark.ofText quoted (if value.isEmpty then default else value)

/-- A shell that says into a buffer of its own. -/
def apart (s : Shell) : Shell :=
  { s with sink := .pipe, said := [] }

/-- What a shell has said, without the line ends that close it. -/
def captured (s : Shell) : List Char :=
  (s.said.dropWhile (· == '\n')).reverse

/-- The shell after another one has run apart from it. -/
def rejoin (s other : Shell) : Shell :=
  { s with input := other.input, clock := other.clock, status := other.status }

/-- Whether a stop is for the callers to see: the end of a shell that ran apart
is not. -/
def outerStop : Option Stop → Option Stop
  | some .exited => none
  | stop => stop

/-- A redirection of a stream to what a text names. -/
def redirect (s : Shell) (stream : Nat) (toStream : Bool) (name : List Char) : Shell :=
  match stream, toStream with
  | 0, false => { s with input := s.fileSource name }
  | 0, true => if name = ['-'] then { s with input := {} } else s
  | 1, false => { s with sink := .nowhere }
  | 1, true => if name = ['1'] then s else { s with sink := .nowhere }
  | _, _ => s

/-- The shell after a command that ran redirected. -/
def restore (s after : Shell) (redirections : List Redirection) : Shell :=
  { after with
    sink := s.sink
    input := if redirections.any fun r => r.stream == 0 then s.input else after.input }

/-- The shell after redirections that stay. -/
def settle (s : Shell) (redirections : List Redirection) : Shell :=
  { s with
    outputEnded := s.outputEnded || s.sink == .nowhere
    inputClosed := s.inputClosed || redirections.any fun r => r.stream == 0 }

/-- The script that a shell of its own is given, its arguments from the zeroth
on, and whether it reads the script from its input. -/
def ownScript (s : Shell) (args : List (List Char)) : Option (List Char × List (List Char)) :=
  match args with
  | [] => none
  | option :: rest =>
    if option.head? == some '-' then
      if option.contains 'c' then
        match rest with
        | script :: rest => some (script, if rest.isEmpty then ["sh".toList] else rest)
        | [] => none
      else
        match rest with
        | path :: _ => some (s.fileOctets path, rest)
        | [] => none
    else some (s.fileOctets option, args)

/-- The lines that have arrived in full, as a script. -/
def arrivedScript (s : Shell) : List Char :=
  ((s.input.arrived.map Prod.snd).reverse.dropWhile (· != '\n')).reverse

end Shell

open Shell

mutual

/-- Expands a word. -/
def expand (s : Shell) : (fuel : Nat) → Word → Expanded
  | 0, _ => ⟨[], s, some .exhausted⟩
  | _ + 1, [] => ⟨[], s, none⟩
  | fuel + 1, piece :: rest =>
    match piece with
    | .text quoted cs =>
      let more := expand s fuel rest
      { more with marks := (if quoted then Mark.ofText true cs else cs.map .char) ++ more.marks }
    | .parameter quoted name default =>
      let more := expand s fuel rest
      { more with marks := s.parameterMarks quoted name default ++ more.marks }
    | .length name =>
      let more := expand s fuel rest
      { more with marks := (digits ((s.parameter? name).getD []).length).map .char ++ more.marks }
    | .arithmetic cs =>
      let more := expand s fuel rest
      { more with marks := (s.calculate cs).map .char ++ more.marks }
    | .output quoted script =>
      match ofScript? script with
      | none => ⟨[], s, some .exited⟩
      | some c =>
        let ran := exec s.apart fuel c
        let s := s.rejoin ran.shell
        match outerStop ran.stop with
        | some stop => ⟨[], s, some stop⟩
        | none =>
          let more := expand s fuel rest
          { more with marks := Mark.ofText quoted ran.shell.captured ++ more.marks }
termination_by structural fuel => fuel

/-- Expands words into fields, after those in `seen`. -/
def expandAll (s : Shell) (seen : List (List Char)) :
    (fuel : Nat) → List Word → List (List Char) × Ran
  | 0, _ => ([], ⟨s, some .exhausted⟩)
  | _ + 1, [] => (seen, ⟨s, none⟩)
  | fuel + 1, w :: rest =>
    let expanded := expand s fuel w
    match expanded.stop with
    | some stop => (seen, ⟨expanded.shell, some stop⟩)
    | none => expandAll expanded.shell (seen ++ Mark.fields expanded.marks) fuel rest
termination_by structural fuel => fuel

/-- Makes assignments. -/
def assignAll (s : Shell) : (fuel : Nat) → List (List Char × Word) → Ran
  | 0, _ => ⟨s, some .exhausted⟩
  | _ + 1, [] => ⟨s, none⟩
  | fuel + 1, (name, w) :: rest =>
    let expanded := expand s fuel w
    match expanded.stop with
    | some stop => ⟨expanded.shell, some stop⟩
    | none => assignAll (expanded.shell.assign name (Mark.joined expanded.marks)) fuel rest
termination_by structural fuel => fuel

/-- Makes redirections. -/
def redirectAll (s : Shell) : (fuel : Nat) → List Redirection → Ran
  | 0, _ => ⟨s, some .exhausted⟩
  | _ + 1, [] => ⟨s, none⟩
  | fuel + 1, r :: rest =>
    let (toStream, w) := match r.target with
      | .file w => (false, w)
      | .stream w => (true, w)
    let expanded := expand s fuel w
    match expanded.stop with
    | some stop => ⟨expanded.shell, some stop⟩
    | none =>
      redirectAll (expanded.shell.redirect r.stream toStream (Mark.joined expanded.marks)) fuel rest
termination_by structural fuel => fuel

/-- Runs a command that has been expanded. -/
def invoke (s : Shell) : (fuel : Nat) → List (List Char) → Ran
  | 0, _ => ⟨s, some .exhausted⟩
  | _ + 1, [] => s.ends 0
  | fuel + 1, name :: args =>
    if name = "sh".toList then
      match s.ownScript args with
      | some (script, args) =>
        match ofScript? script with
        | some c =>
          let ran := exec { s with args := args, named := [] } fuel c
          ⟨{ ran.shell with args := s.args, named := s.named }, outerStop ran.stop⟩
        | none => s.ends 2
      | none =>
        match ofScript? s.arrivedScript with
        | some c =>
          let ran := exec { s with input := { ended := false } } fuel c
          match ran.stop with
          | some .exited => ⟨ran.shell, none⟩
          | some stop => ⟨ran.shell, some stop⟩
          | none => ⟨ran.shell, some .awaiting⟩
        | none => ⟨s, some .awaiting⟩
    else if name = "exec".toList then
      let ran := invoke s fuel args
      ⟨ran.shell, some (ran.stop.getD .exited)⟩
    else s.simple name args
termination_by structural fuel => fuel

/-- Runs the body of a loop over fields. -/
def execEach (s : Shell) (name : List Char) (body : Command) :
    (fuel : Nat) → List (List Char) → Ran
  | 0, _ => ⟨s, some .exhausted⟩
  | _ + 1, [] => ⟨s, none⟩
  | fuel + 1, value :: rest =>
    let ran := exec (s.assign name value) fuel body
    match ran.stop with
    | some .left => ⟨ran.shell, none⟩
    | some stop => ⟨ran.shell, some stop⟩
    | none => execEach ran.shell name body fuel rest
termination_by structural fuel => fuel

/-- Runs a command. -/
def exec (s : Shell) : (fuel : Nat) → Command → Ran
  | 0, _ => ⟨s, some .exhausted⟩
  | fuel + 1, c =>
    match c with
    | .nothing => ⟨s, none⟩
    | .simple assignments words redirections =>
      let (argv, ran) := expandAll s [] fuel words
      match ran.stop with
      | some stop => ⟨ran.shell, some stop⟩
      | none =>
        let before := ran.shell
        let ran := assignAll before fuel assignments
        match ran.stop with
        | some stop => ⟨ran.shell, some stop⟩
        | none =>
          let assigned := ran.shell
          let ran := redirectAll assigned fuel redirections
          match ran.stop with
          | some stop => ⟨ran.shell, some stop⟩
          | none =>
            if argv.head? = some "exec".toList then
              let s := ran.shell.settle redirections
              if argv.length = 1 then s.ends 0 else invoke s fuel argv
            else
              let done := invoke ran.shell fuel argv
              ⟨assigned.restore done.shell redirections, done.stop⟩
    | .redirected c redirections =>
      let ran := redirectAll s fuel redirections
      match ran.stop with
      | some stop => ⟨ran.shell, some stop⟩
      | none =>
        let done := exec ran.shell fuel c
        ⟨s.restore done.shell redirections, done.stop⟩
    | .sequence a b =>
      let ran := exec s fuel a
      match ran.stop with
      | some stop => ⟨ran.shell, some stop⟩
      | none => exec ran.shell fuel b
    | .ifTrue a b =>
      let ran := exec s fuel a
      match ran.stop with
      | some stop => ⟨ran.shell, some stop⟩
      | none => if ran.shell.status = 0 then exec ran.shell fuel b else ran
    | .ifFalse a b =>
      let ran := exec s fuel a
      match ran.stop with
      | some stop => ⟨ran.shell, some stop⟩
      | none => if ran.shell.status = 0 then ran else exec ran.shell fuel b
    | .negated a =>
      let ran := exec s fuel a
      match ran.stop with
      | some stop => ⟨ran.shell, some stop⟩
      | none => ran.shell.ends (if ran.shell.status = 0 then 1 else 0)
    | .pipe a b =>
      let first := exec s.apart fuel a
      let between : Source :=
        { arrived := first.shell.said.reverse.map fun c => (0, c)
          ended := (outerStop first.stop).isNone }
      let second := exec { s with input := between } fuel b
      let joined := { second.shell with input := first.shell.input }
      match outerStop second.stop with
      | some .awaiting => ⟨joined, first.stop⟩
      | some stop => ⟨joined, some stop⟩
      | none => ⟨joined, outerStop first.stop⟩
    | .loop goOn condition body =>
      let ran := exec s fuel condition
      match ran.stop with
      | some stop => ⟨ran.shell, some stop⟩
      | none =>
        if (ran.shell.status == 0) == goOn then
          let done := exec ran.shell fuel body
          match done.stop with
          | some .left => ⟨done.shell, none⟩
          | some stop => ⟨done.shell, some stop⟩
          | none => exec done.shell fuel (.loop goOn condition body)
        else ran.shell.ends 0
    | .branch condition yes no =>
      let ran := exec s fuel condition
      match ran.stop with
      | some stop => ⟨ran.shell, some stop⟩
      | none => exec ran.shell fuel (if ran.shell.status = 0 then yes else no)
    | .each name words body =>
      let (fields, ran) := expandAll s [] fuel words
      match ran.stop with
      | some stop => ⟨ran.shell, some stop⟩
      | none => execEach ran.shell name body fuel fields
termination_by structural fuel => fuel

end

end LspClient.Child
