import LspClient.Child.Run
import LspClient.Transport.Error

/-!
# Jobs

A job is a child process that runs a known command, with a pipe to its input
and one from its output, under a clock that only moves while somebody waits.

A job keeps what was written to it, and when. Whatever else there is to know
follows from that: up to any moment it has said what its command says when it
is run from the start on what had been written by then. Running it again at a
later moment says the same and perhaps more, so an octet that was read once
never changes.

Jobs are only what the program runs with where a system has processes. What is proved of
clients is proved for servers that do anything at all, and of jobs nothing is claimed.
-/

namespace LspClient.Child

/-- A child process and the client's ends of its pipes. -/
structure Job where
  command : String
  /-- the words that are run -/
  argv : List (List Char)
  files : Files
  /-- what was written to it, each with its time -/
  heard : List (Nat × List UInt8) := []
  /-- the time, in milliseconds -/
  clock : Nat := 0
  /-- how much of its output has been read -/
  taken : Nat := 0
  /-- whether the end of its output has been read -/
  ended : Bool := false
  closed : Bool := false

/-- What a job has come to at some moment. -/
structure Sight where
  /-- everything it has said -/
  output : List UInt8
  outputEnded : Bool
  inputClosed : Bool
  /-- when it goes on, if it waits for a time -/
  wake : Option Nat

namespace Job

/-! ## Starting -/

/-- How many steps a command may take in one run. -/
def stepLimit : Nat := 100000

/-- The name of the program that a command is, as far as it could be one. -/
def programName (command : String) : String :=
  if FilePath.isAbsolute command && !Files.endsAsDirectory command then
    match FilePath.steps command with
    | [.name "bin", .name program] => program
    | [.name "usr", .name "bin", .name program] => program
    | _ => command
  else command

/-- Whether a command is a program. -/
def isProgram (command : String) : Bool :=
  ("sh" :: Shell.programs).contains (programName command)

/-- The longest name of a file, in octets. -/
def maxNameSize : Nat := 255

/-- Whether a part of a path is longer than any name of a file. -/
def hasLongName (path : String) : Bool :=
  (FilePath.steps path).any fun step => maxNameSize < step.text.utf8ByteSize

/-- Why the system will not start a command. What has a slash in it is looked
for where it says, and everything else among the programs. -/
def refusal? (files : Files) (command : String) (args : List String) : Option SystemError :=
  if (command :: args).any fun word => word.toList.contains '\x00' then some .nulOctet
  else if isProgram command then none
  else if hasLongName command then some (.numbered "File name too long" 36)
  else if command.toList.contains '/' then
    match files.read command with
    | .error .missing => some .notFound
    | .error .notDirectory => some (.numbered "Not a directory" 20)
    | .error .isDirectory => some (.numbered "Permission denied" 13)
    | .ok _ => some (.numbered "Permission denied" 13)
  else if command = "." ∨ command = ".." then some (.numbered "Permission denied" 13)
  else some .notFound

/-- Starts a command. -/
def start (files : Files) (command : String) (args : List String) :
    Except TransportError Job :=
  match refusal? files command args with
  | some refusal => .error (.ofSpawn command refusal)
  | none =>
    .ok { command, files, argv := ofText (programName command) :: args.map ofText }

/-! ## Looking -/

/-- Everything that was written, as the input of a command. -/
def source (j : Job) : Source where
  arrived := (j.heard.map fun (time, octets) => (ofOctets octets).map fun c => (time, c)).flatten
  ended := false

/-- What the job has come to by now. -/
def sight (j : Job) : Sight :=
  let ran := invoke { files := j.files, now := j.clock, input := j.source } stepLimit j.argv
  let exited := ran.stop == none || ran.stop == some .exited
  { output := toOctets ran.shell.said.reverse
    outputEnded := exited || ran.shell.outputEnded
    inputClosed := exited || ran.shell.inputClosed
    wake := match ran.stop with
      | some (.asleep time) => some time
      | _ => none }

/-- Whether the job runs: it is gone once its pipes are closed. -/
def isRunning (j : Job) : Bool :=
  !j.closed

/-! ## Reading and writing -/

/-- The failure to write to a job that does not read any more. -/
def brokenPipe : SystemError := .numbered "Broken pipe" 32

/-- Writes octets. -/
def write (j : Job) (octets : List UInt8) : Except TransportError Unit × Job :=
  if j.closed then (.error .closed, j)
  else if octets.isEmpty then (.ok (), j)
  else if j.sight.inputClosed then (.error (.io brokenPipe.message), j)
  else (.ok (), { j with heard := j.heard ++ [(j.clock, octets)] })

/-- The most octets that one read takes. -/
def maxChunk : Nat := 64 * 1024

/-- The longest time that one read waits, in milliseconds. -/
def maxWait : Nat := 65535

/-- Reads what there is, or waits for it, but no longer than so many
milliseconds. -/
def readWithin (limit : Nat) (j : Job) :
    Except TransportError (Option (List UInt8)) × Job :=
  let sight := j.sight
  let chunk := (sight.output.drop j.taken).take maxChunk
  if !chunk.isEmpty then (.ok (some chunk), { j with taken := j.taken + chunk.length })
  else if sight.outputEnded then (.error .closed, { j with ended := true })
  else
    match sight.wake with
    | some time =>
      let pause := max 1 (time - j.clock)
      if pause ≤ limit then readWithin (limit - pause) { j with clock := j.clock + pause }
      else (.ok none, { j with clock := j.clock + limit })
    | none => (.ok none, { j with clock := j.clock + limit })
termination_by limit
decreasing_by omega

/-- Reads, and waits for it no longer than a timeout. -/
def read (timeout : Nat) (j : Job) : Except TransportError (Option (List UInt8)) × Job :=
  if j.closed || j.ended then (.error .closed, j) else j.readWithin (min timeout maxWait)

/-- What a row of reads came to. -/
structure Gathered where
  octets : List UInt8
  failure : Option TransportError
  job : Job

/-- Reads until there are as many octets as wanted, a read fails, or the limit
is over. -/
def readUntil (timeout wanted limit : Nat) (j : Job) : Gathered :=
  if wanted = 0 ∨ limit = 0 then ⟨[], none, j⟩
  else
    match j.read timeout with
    | (.error e, j) => ⟨[], some e, j⟩
    | (.ok none, j) => readUntil timeout wanted (limit - max 1 timeout) j
    | (.ok (some chunk), j) =>
      let more := readUntil timeout (wanted - max 1 chunk.length) limit j
      { more with octets := chunk ++ more.octets }
termination_by wanted + limit
decreasing_by all_goals omega

/-- Ends the job. -/
def close (j : Job) : Job :=
  { j with closed := true }

end Job

end LspClient.Child
