import LspClient.Handshake.ServerInfo

/-!
# Reports

What a probe prints about a server: its name and version, and every capability
with a mark that says whether it is supported. A server without a name goes by
its command.

Parts of a report may be in colour. A coloured text is framed by two escape
sequences, one that opens its style and one that resets all styles. A text may
hold resets of its own; each of them is followed by the opening once more, so
the style lasts to the end of the text.
-/

namespace LspClient.Report

/-- The parts of a report that have a style. -/
inductive Style where
  | label
  | name
  | supported
  | unsupported
  deriving DecidableEq, Repr

/-- The escape sequence of a graphic rendition. -/
def sequence (parameters : List Char) : List Char :=
  '\x1b' :: '[' :: parameters ++ ['m']

/-- The sequence that opens a style: labels are dim, names bold and cyan, marks
green or red. -/
def Style.opening : Style → List Char
  | .label => sequence ['2']
  | .name => sequence ['1', ';', '3', '6']
  | .supported => sequence ['3', '2']
  | .unsupported => sequence ['3', '1']

/-- The sequence that resets all styles. -/
def reset : List Char := sequence ['0']

/-- A text in which each reset is followed by an opening. -/
def reopened (opening : List Char) : List Char → List Char
  | [] => []
  | c :: rest =>
    if reset.isPrefixOf (c :: rest) then
      reset ++ opening ++ reopened opening ((c :: rest).drop reset.length)
    else c :: reopened opening rest
termination_by cs => cs.length
decreasing_by
  · have size : reset.length = 4 := rfl
    simp only [List.length_drop, List.length_cons, size]
    omega
  · exact Nat.lt_succ_self _

/-- A text in a style, if there are colours. -/
def styled (colours : Bool) (style : Style) (text : String) : String :=
  if colours then
    String.ofList (style.opening ++ reopened style.opening text.toList ++ reset)
  else text

/-- One capability. -/
def capabilityLine (colours : Bool) (info : ServerInfo) (name : String) : String :=
  let mark :=
    if info.supports name then styled colours .supported "+" else styled colours .unsupported "-"
  "  " ++ mark ++ " " ++ name ++ "\n"

/-- The version, if the server has one. -/
def versionLine (colours : Bool) (info : ServerInfo) : String :=
  match info.version with
  | some version => styled colours .label "Version:" ++ " " ++ version ++ "\n"
  | none => ""

/-- The report on a server that was started by a command. -/
def text (colours : Bool) (command : String) (info : ServerInfo) : String :=
  styled colours .label "Server: " ++ " " ++
    styled colours .name (info.name.getD command) ++ "\n" ++
    versionLine colours info ++
    styled colours .label "Capabilities:" ++ " " ++ toString info.names.length ++ "\n" ++
    String.join (info.names.map (capabilityLine colours info))

/-! ## When there are colours -/

/-- The variables of an environment. -/
abbrev Environment := List (String × String)

/-- The variables that decide about colours. -/
def variableNames : List String :=
  ["NO_COLOR", "CLICOLOR", "CLICOLOR_FORCE", "GROMMET_COLOR"]

/-- The value of a variable. -/
def Environment.value? (env : Environment) (name : String) : Option String :=
  (env.find? fun entry => entry.1 == name).map Prod.snd

/-- Whether the caller wants colours. -/
def wantsColours (env : Environment) : Bool :=
  (env.value? "NO_COLOR").isNone &&
    match env.value? "GROMMET_COLOR" with
    | some v => v != "0" && String.ofList (v.toList.map Char.toLower) != "false"
    | none => true

/-- Whether output takes colours. Output that is no terminal takes them only if
it is forced to. -/
def takesColours (env : Environment) (terminal : Bool) : Bool :=
  match env.value? "CLICOLOR_FORCE" with
  | some v => if v != "0" then true else unforced
  | none => unforced
where
  /-- The same without the force. -/
  unforced : Bool :=
    (env.value? "NO_COLOR").isNone && (env.value? "CLICOLOR").getD "1" != "0" && terminal

/-- Whether a report is coloured. -/
def colours (env : Environment) (terminal : Bool) : Bool :=
  wantsColours env && takesColours env terminal

end LspClient.Report
