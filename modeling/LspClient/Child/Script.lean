/-!
# Scripts

The part of the shell's language that scripts of small servers are written in:
words with quotes and parameters, assignments, redirections, lists, pipelines,
loops and branches.

A shell handles octets. Here they are held as the characters with the same
numbers, so the length of a word is its length in octets.

A word is a row of pieces, and a piece remembers whether it was quoted: what an
unquoted parameter stands for is split at blanks, what a quoted one stands for
is not. Command and arithmetic substitutions keep their text and are read when
they are expanded.

Like all of a job, scripts are only what the program runs with (`Child.Job`).
-/

namespace LspClient.Child

/-- A part of a word. -/
inductive Piece where
  | text (quoted : Bool) (cs : List Char)
  /-- the value of a parameter, or else a default -/
  | parameter (quoted : Bool) (name : List Char) (default : List Char)
  /-- the length of a parameter's value -/
  | length (name : List Char)
  /-- the output of a script -/
  | output (quoted : Bool) (script : List Char)
  /-- the value of an arithmetic expression -/
  | arithmetic (expression : List Char)
  deriving DecidableEq, Repr

abbrev Word := List Piece

/-- Where a stream leads. -/
inductive Target where
  /-- the file that a word names -/
  | file (name : Word)
  /-- where another stream leads -/
  | stream (number : Word)
  deriving DecidableEq, Repr

/-- A redirection of a numbered stream. -/
structure Redirection where
  stream : Nat
  target : Target
  deriving DecidableEq, Repr

/-- A command. -/
inductive Command where
  | nothing
  | simple (assignments : List (List Char × Word)) (words : List Word)
      (redirections : List Redirection)
  | sequence (first second : Command)
  | ifTrue (first second : Command)
  | ifFalse (first second : Command)
  | negated (c : Command)
  | pipe (first second : Command)
  /-- a loop that goes on while the condition is true, or until it is -/
  | loop (goOn : Bool) (condition body : Command)
  | branch (condition yes no : Command)
  | each (name : List Char) (words : List Word) (body : Command)
  | redirected (c : Command) (redirections : List Redirection)

/-! ## Words -/

/-- A lexeme. -/
inductive Lexeme where
  | word (w : Word)
  | mark (cs : List Char)
  /-- a redirection whose target comes next -/
  | redirect (stream : Nat) (toStream : Bool)
  deriving DecidableEq, Repr

def isNameStart (c : Char) : Bool := c.isAlpha || c == '_'

def isNameChar (c : Char) : Bool := c.isAlphanum || c == '_'

/-- The parameters with a name of one character. -/
def isSpecial (c : Char) : Bool :=
  c.isDigit || c == '@' || c == '*' || c == '#' || c == '?' || c == '$' || c == '!'

/-- The text up to a closing parenthesis that matches, and what follows it. -/
def untilClosing (depth : Nat) (said : List Char) : List Char → List Char × List Char
  | [] => (said.reverse, [])
  | '(' :: rest => untilClosing (depth + 1) ('(' :: said) rest
  | ')' :: rest =>
    match depth with
    | 0 => (said.reverse, rest)
    | depth + 1 => untilClosing depth (')' :: said) rest
  | c :: rest => untilClosing depth (c :: said) rest

/-- The parameter in braces. -/
def braced (quoted : Bool) (inside : List Char) : Piece :=
  match inside with
  | '#' :: c :: rest => .length (c :: rest)
  | _ =>
    let name := if inside.head?.any isSpecial then inside.take 1 else inside.takeWhile isNameChar
    match inside.drop name.length with
    | ':' :: '-' :: default => .parameter quoted name default
    | '-' :: default => .parameter quoted name default
    | _ => .parameter quoted name []

/-- What a dollar sign starts, and what follows it. -/
def dollar (quoted : Bool) (cs : List Char) : Piece × List Char :=
  match cs with
  | '{' :: rest => (braced quoted (rest.takeWhile (· != '}')), (rest.dropWhile (· != '}')).drop 1)
  | '(' :: '(' :: rest =>
    let (inside, rest) := untilClosing 0 [] rest
    (.arithmetic inside, rest.drop 1)
  | '(' :: rest =>
    let (inside, rest) := untilClosing 0 [] rest
    (.output quoted inside, rest)
  | c :: rest =>
    if isNameStart c then
      (.parameter quoted (c :: rest.takeWhile isNameChar) [], rest.dropWhile isNameChar)
    else if isSpecial c then (.parameter quoted [c] [], rest)
    else (.text quoted ['$'], cs)
  | [] => (.text quoted ['$'], [])

/-- The pieces between quotes, up to the closing one. Within quotes a backslash
is itself unless it comes before a character that is special there. -/
def quotedPieces : (fuel : Nat) → List Char → List Piece × List Char
  | 0, cs => ([], cs)
  | fuel + 1, cs =>
    match cs with
    | [] => ([], [])
    | '"' :: rest => ([], rest)
    | '\\' :: c :: rest =>
      let (more, after) := quotedPieces fuel rest
      if c = '\n' then (more, after)
      else if c = '$' ∨ c = '"' ∨ c = '\\' ∨ c.toNat = 0x60 then
        (.text true [c] :: more, after)
      else (.text true ['\\', c] :: more, after)
    | '$' :: rest =>
      let (piece, rest) := dollar true rest
      let (more, after) := quotedPieces fuel rest
      (piece :: more, after)
    | c :: rest =>
      let (more, after) := quotedPieces fuel rest
      (.text true [c] :: more, after)

/-- The characters that end a word. -/
def endsWord (c : Char) : Bool :=
  c == ' ' || c == '\t' || c == '\n' || c == ';' || c == '&' || c == '|' || c == '<' || c == '>' ||
    c == '(' || c == ')'

/-- The pieces of a word, and what follows it. -/
def wordPieces : (fuel : Nat) → List Char → Word × List Char
  | 0, cs => ([], cs)
  | fuel + 1, cs =>
    match cs with
    | [] => ([], [])
    | '\\' :: '\n' :: rest => wordPieces fuel rest
    | '\\' :: c :: rest =>
      let (more, after) := wordPieces fuel rest
      (.text true [c] :: more, after)
    | '\'' :: rest =>
      let (more, after) := wordPieces fuel ((rest.dropWhile (· != '\'')).drop 1)
      (.text true (rest.takeWhile (· != '\'')) :: more, after)
    | '"' :: rest =>
      let (inside, rest) := quotedPieces (rest.length + 1) rest
      let (more, after) := wordPieces fuel rest
      (.text true [] :: inside ++ more, after)
    | '$' :: rest =>
      let (piece, rest) := dollar false rest
      let (more, after) := wordPieces fuel rest
      (piece :: more, after)
    | c :: rest =>
      if endsWord c then ([], cs)
      else
        let (more, after) := wordPieces fuel rest
        (.text false [c] :: more, after)

/-- The text of a word that nothing in it changes. -/
def literal? : Word → Option (List Char)
  | [] => some []
  | .text false cs :: rest => (literal? rest).map (cs ++ ·)
  | _ :: _ => none

/-- The lexeme of a redirection mark, whose stream is named in front of it or
is the usual one. -/
def redirectMark (stream : Option Nat) (cs : List Char) : Option (Lexeme × List Char) :=
  match cs with
  | '>' :: '&' :: rest => some (.redirect (stream.getD 1) true, rest)
  | '<' :: '&' :: rest => some (.redirect (stream.getD 0) true, rest)
  | '>' :: '>' :: rest => some (.redirect (stream.getD 1) false, rest)
  | '>' :: rest => some (.redirect (stream.getD 1) false, rest)
  | '<' :: rest => some (.redirect (stream.getD 0) false, rest)
  | _ => none

/-- The lexemes of a script. -/
def lexemes : (fuel : Nat) → List Char → List Lexeme
  | 0, _ => []
  | fuel + 1, cs =>
    match cs with
    | [] => []
    | '#' :: rest => lexemes fuel (rest.dropWhile (· != '\n'))
    | '\\' :: '\n' :: rest => lexemes fuel rest
    | '&' :: '&' :: rest => .mark ['&', '&'] :: lexemes fuel rest
    | '|' :: '|' :: rest => .mark ['|', '|'] :: lexemes fuel rest
    | c :: rest =>
      if c = ' ' ∨ c = '\t' then lexemes fuel rest
      else if c = '\n' ∨ c = ';' ∨ c = '&' then .mark [';'] :: lexemes fuel rest
      else if c = '|' ∨ c = '(' ∨ c = ')' then .mark [c] :: lexemes fuel rest
      else
        match redirectMark none cs with
        | some (lexeme, rest) => lexeme :: lexemes fuel rest
        | none =>
          let (w, after) := wordPieces (cs.length + 1) cs
          let numbered := match w with
            | [.text false [d]] =>
              if d.isDigit then redirectMark (some (d.toNat - '0'.toNat)) after else none
            | _ => none
          match numbered with
          | some (lexeme, rest) => lexeme :: lexemes fuel rest
          | none => .word w :: lexemes fuel after

/-! ## Commands -/

/-- Whether a lexeme is a reserved word. -/
def isReserved (name : String) (l : Lexeme) : Bool :=
  match l with
  | .word w => literal? w == some name.toList
  | _ => false

/-- The words that end a list of commands. -/
def endsList (l : Lexeme) : Bool :=
  ["then", "else", "elif", "fi", "do", "done", "\x7d"].any fun name => isReserved name l

/-- The assignment that a word is. -/
def assignment? (w : Word) : Option (List Char × Word) :=
  let head := w.takeWhile fun piece => match piece with
    | .text false ['='] => false
    | .text false _ => true
    | _ => false
  match literal? head, w.drop head.length with
  | some name, .text false ['='] :: rest =>
    if name.head?.any isNameStart && name.all isNameChar then some (name, rest) else none
  | _, _ => none

/-- The lexemes after separators. -/
def skipMarks (ls : List Lexeme) : List Lexeme :=
  ls.dropWhile (· == .mark [';'])

/-- The target of a redirection. -/
def target (toStream : Bool) (w : Word) : Target :=
  if toStream then .stream w else .file w

/-- A simple command after the parts that have been read. -/
def simpleFrom (assignments : List (List Char × Word)) (words : List Word)
    (redirections : List Redirection) : List Lexeme → Command × List Lexeme
  | .word w :: rest =>
    match words, assignment? w with
    | [], some entry => simpleFrom (assignments ++ [entry]) words redirections rest
    | _, _ => simpleFrom assignments (words ++ [w]) redirections rest
  | .redirect stream toStream :: .word w :: rest =>
    simpleFrom assignments words (redirections ++ [⟨stream, target toStream w⟩]) rest
  | rest => (.simple assignments words redirections, rest)

/-- The redirections behind a compound command. -/
def redirectionsFrom (c : Command) (redirections : List Redirection) :
    List Lexeme → Command × List Lexeme
  | .redirect stream toStream :: .word w :: rest =>
    redirectionsFrom c (redirections ++ [⟨stream, target toStream w⟩]) rest
  | rest => (if redirections.isEmpty then c else .redirected c redirections, rest)

/-- The words up to the next mark. -/
def wordsFrom : List Lexeme → List Word × List Lexeme
  | .word w :: rest =>
    let (more, after) := wordsFrom rest
    (w :: more, after)
  | rest => ([], rest)

/-- The lexemes after a reserved word that has to come next. -/
def expect (name : String) (ls : List Lexeme) : Option (List Lexeme) :=
  match skipMarks ls with
  | l :: rest => if isReserved name l then some rest else none
  | [] => none

mutual

/-- A command. -/
def command : (fuel : Nat) → List Lexeme → Option (Command × List Lexeme)
  | 0, _ => none
  | fuel + 1, ls =>
    match ls with
    | .mark ['('] :: rest => do
      let (body, rest) ← commands fuel rest
      match rest with
      | .mark [')'] :: rest => return redirectionsFrom body [] rest
      | _ => none
    | l :: rest =>
      if isReserved "\x7b" l then do
        let (body, rest) ← commands fuel rest
        return redirectionsFrom body [] (← expect "\x7d" rest)
      else if isReserved "while" l || isReserved "until" l then do
        let (condition, rest) ← commands fuel rest
        let (body, rest) ← commands fuel (← expect "do" rest)
        return redirectionsFrom (.loop (isReserved "while" l) condition body) []
          (← expect "done" rest)
      else if isReserved "if" l then do
        let (c, rest) ← branches fuel rest
        return redirectionsFrom c [] rest
      else if isReserved "for" l then
        match rest with
        | .word name :: rest => do
          let (words, rest) := wordsFrom (← expect "in" rest)
          let (body, rest) ← commands fuel (← expect "do" rest)
          return redirectionsFrom (.each ((literal? name).getD []) words body) []
            (← expect "done" rest)
        | _ => none
      else if isReserved "!" l then do
        let (c, rest) ← command fuel rest
        return (.negated c, rest)
      else some (simpleFrom [] [] [] ls)
    | [] => none
termination_by structural fuel => fuel

/-- The rest of a branch, from its condition on. -/
def branches : (fuel : Nat) → List Lexeme → Option (Command × List Lexeme)
  | 0, _ => none
  | fuel + 1, ls => do
    let (condition, rest) ← commands fuel ls
    let (yes, rest) ← commands fuel (← expect "then" rest)
    match skipMarks rest with
    | l :: rest =>
      if isReserved "fi" l then return (.branch condition yes .nothing, rest)
      else if isReserved "elif" l then do
        let (no, rest) ← branches fuel rest
        return (.branch condition yes no, rest)
      else if isReserved "else" l then do
        let (no, rest) ← commands fuel rest
        return (.branch condition yes no, ← expect "fi" rest)
      else none
    | [] => none
termination_by structural fuel => fuel

/-- Commands joined by pipes. -/
def pipeline : (fuel : Nat) → List Lexeme → Option (Command × List Lexeme)
  | 0, _ => none
  | fuel + 1, ls => do
    let (first, rest) ← command fuel ls
    match rest with
    | .mark ['|'] :: rest =>
      let (second, rest) ← pipeline fuel (skipMarks rest)
      return (.pipe first second, rest)
    | _ => return (first, rest)
termination_by structural fuel => fuel

/-- Pipelines joined by conditions, after the first of them. -/
def conditions (first : Command) : (fuel : Nat) → List Lexeme → Option (Command × List Lexeme)
  | 0, _ => none
  | fuel + 1, ls =>
    match ls with
    | .mark ['&', '&'] :: rest => do
      let (second, rest) ← pipeline fuel (skipMarks rest)
      conditions (.ifTrue first second) fuel rest
    | .mark ['|', '|'] :: rest => do
      let (second, rest) ← pipeline fuel (skipMarks rest)
      conditions (.ifFalse first second) fuel rest
    | _ => some (first, ls)
termination_by structural fuel => fuel

/-- A list of commands, up to what ends it. -/
def commands : (fuel : Nat) → List Lexeme → Option (Command × List Lexeme)
  | 0, _ => none
  | fuel + 1, ls =>
    match skipMarks ls with
    | [] => some (.nothing, [])
    | l :: rest =>
      if endsList l || l == .mark [')'] then some (.nothing, l :: rest)
      else do
        let (first, rest) ← pipeline fuel (l :: rest)
        let (first, rest) ← conditions first fuel rest
        let (second, rest) ← commands fuel rest
        match second with
        | .nothing => return (first, rest)
        | _ => return (.sequence first second, rest)
termination_by structural fuel => fuel

end

/-- The command that a script is. -/
def ofScript? (cs : List Char) : Option Command :=
  let ls := lexemes (cs.length + 1) cs
  match commands (4 * ls.length + 4) ls with
  | some (c, []) => some c
  | _ => none

end LspClient.Child
