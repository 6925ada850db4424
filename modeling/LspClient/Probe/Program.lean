import LspClient.Json.Encode
import LspClient.Probe.Attachment
import LspClient.Probe.CommandLine
import LspClient.Probe.Report
import LspClient.Settings.Document

/-!
# The program

One run of the program from its arguments to its exit code. It prints the
capabilities that a client would announce, or it starts a server, waits for
the handshake, reports what the server announced and takes its leave. The
report is printed before the leave is taken, so it stands even if that fails,
and a server that does not grant the leave in time is ended without a word.
-/

namespace LspClient.Program

open CommandLine (Invocation ProbeRequest Action UsageError)

/-- What a run comes to. -/
structure Outcome where
  exitCode : Nat := 0
  /-- what is printed -/
  output : String := ""
  /-- what is said about a run that is not served -/
  complaint : Option String := none
  /-- the client, if there was one, as the run leaves it -/
  client : Option Client := none

namespace Outcome

/-- A failure after some output. -/
def failed (reason : String) (output : String) (client : Option Client) : Outcome :=
  { exitCode := 1, output, complaint := some ("Error: " ++ reason), client }

end Outcome

/-! ## Probing -/

/-- The reasons that a probe may fail for. -/
inductive ProbeFailure where
  | start
  | handshakeTimeout
  /-- the handshake is over and there is nothing to report -/
  | exited
  | leave (e : ClientError)
  deriving DecidableEq, Repr

/-- The failure of a probe in words. -/
def ProbeFailure.message (request : ProbeRequest) : ProbeFailure → String
  | .start => s!"failed to start '{request.server}'"
  | .handshakeTimeout =>
    s!"'{request.server}' did not complete the handshake within {request.timeout} ms"
  | .exited => s!"'{request.server}' exited during the handshake"
  | .leave e => e.message

section Talk

variable {σ : Type} (next : σ → Client → Round σ) (request : ProbeRequest) (id : SessionId)

/-- Asks the server to end and waits for that. Its answer is not insisted
upon. -/
def takeLeave (surroundings : σ) (c : Client) : Except ClientError Unit × Client :=
  match c.close id with
  | (.error e, c) => (.error e, c.shutdown)
  | (.ok (), c) =>
    (.ok (), (c.waitWhile next id .connected request.timeout surroundings).client.shutdown)

/-- Waits for the handshake, reports, and takes leave. What the server does in the meantime
is up to the surroundings. -/
def converse (colours : Bool) (surroundings : σ) (c : Client) : Outcome :=
  let waited := c.waitWhile next id .connecting request.timeout surroundings
  let failed (failure : ProbeFailure) (output : String) (c : Client) : Outcome :=
    .failed (failure.message request) output (some c)
  if !waited.changed then failed .handshakeTimeout "" waited.client.shutdown
  else
    match waited.client.serverInfo? id with
    | none => failed .exited "" waited.client.shutdown
    | some info =>
      let report := Report.text colours request.server info
      match takeLeave next request id waited.surroundings waited.client with
      | (.error e, c) => failed (.leave e) report c
      | (.ok (), c) => { output := report, client := some c }

end Talk

/-- What surrounds a run. -/
structure Surroundings where
  files : Files := .standard
  environment : Report.Environment := []
  /-- whether output goes to a terminal -/
  terminal : Bool := false
  places : FilePath.Places := .bare

/-- Starts a server and gets to know it. -/
def probe (s : Surroundings) (settings : Settings) (request : ProbeRequest) : Outcome :=
  let notStarted (client : Option Client) : Outcome :=
    .failed (ProbeFailure.start.message request) "" client
  match Child.Job.start s.files request.server request.args with
  | .error _ => notStarted none
  | .ok job =>
    let settings := { settings with debug := settings.debug || request.debug }
    let connection : Connection :=
      { args := request.args, root := request.root, places := s.places }
    match ({ settings : Client }).connect request.server connection with
    | (.error _, c) => notStarted (some c)
    | (.ok id, c) =>
      converse Attachment.next request id (Report.colours s.environment s.terminal)
        { job, readTimeout := settings.readTimeout : Attachment } c

/-! ## Running -/

/-- The settings of an invocation: those of its file, or the defaults. -/
def settings (files : Files) (invocation : Invocation) : Except String Settings :=
  match invocation.config with
  | none => .ok {}
  | some path =>
    match Settings.load files path with
    | .ok settings => .ok settings
    | .error _ => .error ("failed to load configuration from " ++ path)

/-- Does what an invocation asks for. -/
def perform (s : Surroundings) (invocation : Invocation) : Outcome :=
  match settings s.files invocation with
  | .error reason => .failed reason "" none
  | .ok settings =>
    match invocation.action with
    | .capabilities => { output := Json.encode settings.capabilities.toJson ++ "\n" }
    | .probe request => probe s settings request

/-- How the program is used. -/
def usage : String :=
  "Usage: " ++ programName ++ " [--config <PATH>] <probe | capabilities>"

/-- The name of the program, or of one of its subcommands. -/
def fullName (subcommand : Option String) : String :=
  match subcommand with
  | some name => programName ++ "-" ++ name
  | none => programName

/-- What a command line comes to that asks for nothing that can be done, or
only for the version. -/
def declined (e : UsageError) : Outcome :=
  match e with
  | .version subcommand => { output := fullName subcommand ++ " " ++ programVersion ++ "\n" }
  | _ => { exitCode := e.exitCode, complaint := some usage }

/-- A run of the program. -/
def run (s : Surroundings) (args : List String) : Outcome :=
  match CommandLine.parse args with
  | .error e => declined e
  | .ok invocation => perform s invocation

end LspClient.Program
