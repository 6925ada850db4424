import LspClient.Client.Basic
import LspClient.Text.Escaped

/-!
# Overview of a client

One line that shows every session of a client, for logs: its number, command
and status, how many requests wait, and the process while it runs.
-/

namespace LspClient.Client

/-- A process number, if there is one. -/
def processText : Option Nat → String
  | some n => "Some(" ++ toString n ++ ")"
  | none => "None"

/-- The number of a session. -/
def idText (id : SessionId) : String :=
  "SessionId(" ++ toString id ++ ")"

/-- A session with its server. -/
def sessionText (s : Session) (server : Server) : String :=
  idText s.id ++ ": Session \x7b id: " ++ idText s.id ++ ", command: " ++ Text.shown s.command ++
    ", status: " ++ s.status.word ++ ", pending: " ++ toString s.pending.length ++ ", pid: " ++
    processText server.runningProcess? ++ ", .. \x7d"

/-- All sessions, in the order of their numbers. -/
def sessionsText (c : Client) : String :=
  "\x7b" ++ String.intercalate ", " (c.links.filterMap fun l =>
    l.session.map fun s => sessionText s l.server) ++ "\x7d, .. \x7d"

end LspClient.Client
