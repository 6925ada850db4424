import LspClient.Child.Script
import LspClient.Number.Decimal
import LspClient.Files.Basic
import LspClient.Text.Utf8

/-!
# The state of a shell

A shell runs up to a moment. It knows what had arrived on its input by then,
and it stops early where it would have to wait: for input that has not
arrived, or for a time that has not come. What it has said up to there is
final, because a shell that is given more input and more time goes through the
same states first.

The commands in this file are the ones that run no other command.

Like all of a job, shells are only what the program runs with (`Child.Job`).
-/

namespace LspClient.Child

/-- Octets as characters. -/
def ofOctets (bs : List UInt8) : List Char :=
  bs.map fun b => Char.ofNat b.toNat

/-- Characters as octets. -/
def toOctets (cs : List Char) : List UInt8 :=
  cs.map fun c => UInt8.ofNat c.toNat

/-- A text as characters that stand for its octets. -/
def ofText (s : String) : List Char :=
  ofOctets (Utf8.octets s)

/-- The input of a command: what has arrived and was not read, with the time of
its arrival, and whether that is all there will be. -/
structure Source where
  arrived : List (Nat × Char) := []
  ended : Bool := true

/-- Where output goes. -/
inductive Sink where
  /-- to the reader of the pipe -/
  | pipe
  | nowhere
  deriving DecidableEq, Repr

/-- A shell. -/
structure Shell where
  files : Files := .standard
  /-- the moment up to which it runs, in milliseconds -/
  now : Nat
  /-- the variables with their values -/
  named : List (List Char × List Char) := []
  /-- the parameters with numbers, from 0 on -/
  args : List (List Char) := []
  input : Source := {}
  sink : Sink := .pipe
  /-- what it has said, backwards -/
  said : List Char := []
  status : Nat := 0
  clock : Nat := 0
  /-- whether it has given up its input -/
  inputClosed : Bool := false
  /-- whether it has given up its output -/
  outputEnded : Bool := false

/-- Why a shell stops. -/
inductive Stop where
  /-- for input -/
  | awaiting
  /-- for a time -/
  | asleep (wake : Nat)
  | exited
  /-- to leave a loop -/
  | left
  /-- the run was cut short -/
  | exhausted
  deriving DecidableEq, Repr

/-- What a command came to. -/
structure Ran where
  shell : Shell
  stop : Option Stop := none

namespace Shell

/-- The command has ended with a status. -/
def ends (s : Shell) (status : Nat) : Ran :=
  ⟨{ s with status := status }, none⟩

/-- Says something. -/
def say (s : Shell) (cs : List Char) : Shell :=
  match s.sink with
  | .pipe => { s with said := cs.reverse ++ s.said }
  | .nowhere => s

/-! ## Parameters -/

/-- Decimal digits as characters. -/
def digits (n : Nat) : List Char := Nat.toDigits 10 n

/-- The value of a parameter. -/
def parameter? (s : Shell) (name : List Char) : Option (List Char) :=
  match name with
  | ['?'] => some (digits s.status)
  | ['#'] => some (digits (s.args.length - 1))
  | ['$'] => some ['1']
  | ['@'] => some ([' '].intercalate (s.args.drop 1))
  | ['*'] => some ([' '].intercalate (s.args.drop 1))
  | _ =>
    match Numeral.natural? name with
    | some n => s.args[n]?
    | none => (s.named.find? fun entry => entry.1 == name).map Prod.snd

/-- Gives a variable a value. -/
def assign (s : Shell) (name value : List Char) : Shell :=
  { s with named := (name, value) :: s.named.filter fun entry => entry.1 != name }

/-! ## Arithmetic -/

/-- An operator between numbers. -/
def applyOperator (op : Char) (a b : Int) : Int :=
  if op = '+' then a + b
  else if op = '-' then a - b
  else if op = '*' then a * b
  else if op = '/' then a.tdiv b
  else if op = '%' then a.tmod b
  else if op = '<' then (if a < b then 1 else 0)
  else (if a > b then 1 else 0)

/-- How tightly an operator binds; 0 for what is none. -/
def binding (op : Char) : Nat :=
  if op = '<' ∨ op = '>' then 1
  else if op = '+' ∨ op = '-' then 2
  else if op = '*' ∨ op = '/' ∨ op = '%' then 3
  else 0

mutual

/-- The number at the start of an expression: digits, a variable, a sign, or
an expression in parentheses. -/
def operand (s : Shell) : (fuel : Nat) → List Char → Int × List Char
  | 0, cs => (0, cs)
  | fuel + 1, cs =>
    match cs with
    | '(' :: rest =>
      let (n, rest) := expression s 1 fuel rest
      (n, rest.drop 1)
    | '-' :: rest =>
      let (n, rest) := operand s fuel rest
      (-n, rest)
    | '+' :: rest => operand s fuel rest
    | '$' :: rest => operand s fuel rest
    | _ =>
      let name := cs.takeWhile isNameChar
      let read (cs : List Char) : Int := ((Numeral.signed? cs).map Int64.toInt).getD 0
      let n := if name.head?.any Char.isDigit then read name else read ((s.parameter? name).getD [])
      (n, cs.drop name.length)
termination_by structural fuel => fuel

/-- An expression whose operators bind at least so tightly. -/
def expression (s : Shell) (least : Nat) : (fuel : Nat) → List Char → Int × List Char
  | 0, cs => (0, cs)
  | fuel + 1, cs =>
    let (n, rest) := operand s fuel cs
    operators s least n fuel rest
termination_by structural fuel => fuel

/-- The operators behind a number. -/
def operators (s : Shell) (least : Nat) (n : Int) : (fuel : Nat) → List Char → Int × List Char
  | 0, cs => (n, cs)
  | fuel + 1, cs =>
    match cs with
    | op :: rest =>
      if least ≤ binding op ∧ binding op ≠ 0 then
        let (m, rest) := expression s (binding op + 1) fuel rest
        operators s least (applyOperator op n m) fuel rest
      else (n, cs)
    | [] => (n, [])
termination_by structural fuel => fuel

end

/-- The value of an arithmetic expression, as text. -/
def calculate (s : Shell) (cs : List Char) : List Char :=
  let cs := cs.filter fun c => c != ' '
  match (expression s 1 (2 * cs.length + 2) cs).1 with
  | .ofNat n => digits n
  | .negSucc n => '-' :: digits (n + 1)

/-! ## Input -/

/-- Takes so many octets from the input, or as many as there are. -/
def takeOctets (s : Shell) (count : Nat) : List Char × Shell :=
  let taken := s.input.arrived.take count
  (taken.map Prod.snd,
    { s with input := { s.input with arrived := s.input.arrived.drop count },
             clock := taken.foldl (fun t entry => max t entry.1) s.clock })

/-- Takes a line from the input, without its end: none if the line is not
complete. -/
def takeLine? (s : Shell) : Option (List Char) × Shell :=
  let line := s.input.arrived.takeWhile fun entry => entry.2 != '\n'
  if line.length < s.input.arrived.length then
    let (_, s) := s.takeOctets (line.length + 1)
    (some (line.map Prod.snd), s)
  else (none, s)

/-- The octets of a file, as far as that can be told. -/
def fileOctets (s : Shell) (path : List Char) : List Char :=
  match Utf8.text? (toOctets path) with
  | some path =>
    match s.files.read path with
    | .ok text => ofText text
    | .error _ => []
  | none => []

/-- A file as an input. -/
def fileSource (s : Shell) (path : List Char) : Source :=
  { arrived := (s.fileOctets path).map fun c => (0, c) }

/-! ## Commands -/

/-- The blanks that separate words. -/
def isBlank (c : Char) : Bool := c == ' ' || c == '\t' || c == '\n'

/-- A line without the blanks around it. -/
def trimmed (cs : List Char) : List Char :=
  ((cs.dropWhile isBlank).reverse.dropWhile isBlank).reverse

/-- Gives the words of a line to variables. The last one takes the rest. -/
def assignWords (s : Shell) (line : List Char) : List (List Char) → Shell
  | [] => s
  | [name] => s.assign name (trimmed line)
  | name :: names =>
    let line := line.dropWhile isBlank
    (s.assign name (line.takeWhile fun c => !isBlank c)).assignWords
      (line.dropWhile fun c => !isBlank c) names

/-- Reads a line into variables. -/
def readLine (s : Shell) (args : List (List Char)) : Ran :=
  let names := args.filter fun arg => arg.head? != some '-'
  match s.takeLine? with
  | (some line, s) => (s.assignWords line names).ends 0
  | (none, s) =>
    if s.input.ended then
      let (rest, s) := s.takeOctets s.input.arrived.length
      (s.assignWords rest names).ends 1
    else ⟨s, some .awaiting⟩

/-- Everything that has arrived goes through a function. -/
def filter (s : Shell) (f : List Char → List Char) : Ran :=
  let (cs, s) := s.takeOctets s.input.arrived.length
  let s := s.say (f cs)
  if s.input.ended then s.ends 0 else ⟨s, some .awaiting⟩

/-- Says its input, or files. -/
def cat (s : Shell) (paths : List (List Char)) : Ran :=
  match paths with
  | [] => s.filter id
  | [['-']] => s.filter id
  | _ => (s.say (paths.map s.fileOctets).flatten).ends 0

/-- The number and the file that the arguments of a cut name. -/
def cutArguments (args : List (List Char)) : Bool × Nat × Option (List Char) :=
  let number (cs : List Char) : Nat := (Numeral.natural? cs).getD 10
  match args with
  | ['-', 'c'] :: n :: rest => (true, number n, rest.head?)
  | ['-', 'n'] :: n :: rest => (false, number n, rest.head?)
  | ('-' :: 'c' :: n) :: rest => (true, number n, rest.head?)
  | ('-' :: 'n' :: n) :: rest => (false, number n, rest.head?)
  | ('-' :: n) :: rest => (false, number n, rest.head?)
  | rest => (false, 10, rest.head?)

/-- The first lines of a text, with the rest of the number. -/
def firstLines (count : Nat) : List Char → List Char × Nat
  | [] => ([], count)
  | c :: rest =>
    match count with
    | 0 => ([], 0)
    | n + 1 =>
      let (more, left) := firstLines (if c = '\n' then n else n + 1) rest
      (c :: more, left)

/-- Says the beginning of its input, or of a file. -/
def head (s : Shell) (args : List (List Char)) : Ran :=
  let (octets, count, path) := cutArguments args
  match path with
  | some path =>
    let content :=
      if path = "/dev/zero".toList then List.replicate (if octets then count else 0) '\x00'
      else s.fileOctets path
    (s.say (if octets then content.take count else (firstLines count content).1)).ends 0
  | none =>
    let all := s.input.arrived.map Prod.snd
    let (out, left) :=
      if octets then (all.take count, count - all.length) else firstLines count all
    let (_, s) := s.takeOctets out.length
    let s := s.say out
    if left = 0 ∨ s.input.ended then s.ends 0 else ⟨s, some .awaiting⟩

/-- A duration in seconds, as milliseconds. -/
def duration (cs : List Char) : Nat :=
  match Decimal.read? cs with
  | some d =>
    match d.exponent + 3 with
    | .ofNat k => d.coefficient * Nat.pow 10 k
    | .negSucc k => d.coefficient / Nat.pow 10 (k + 1)
  | none => 0

/-- Waits. -/
def sleep (s : Shell) (args : List (List Char)) : Ran :=
  let wake := s.clock + args.foldl (fun total arg => total + duration arg) 0
  if wake ≤ s.now then { s with clock := wake }.ends 0 else ⟨s, some (.asleep wake)⟩

/-- The characters that a backslash and a letter stand for. -/
def escapes : List (Char × Char) :=
  [('n', '\n'), ('r', '\r'), ('t', '\t'), ('a', '\x07'), ('b', '\x08'), ('f', '\x0c'),
    ('v', '\x0b'), ('\\', '\\')]

/-- The character of a row of octal digits. -/
def octal (cs : List Char) : Char :=
  Char.ofNat (cs.foldl (fun n c => n * 8 + (c.toNat - '0'.toNat)) 0 % 256)

def isOctal (c : Char) : Bool := '0' ≤ c && c ≤ '7'

/-- The escape behind a backslash, and what follows it. -/
def unescapeOne (cs : List Char) : List Char × List Char :=
  match cs with
  | [] => (['\\'], [])
  | c :: rest =>
    match escapes.find? fun entry => entry.1 == c with
    | some (_, d) => ([d], rest)
    | none =>
      if isOctal c then
        let ds := (cs.take 3).takeWhile isOctal
        ([octal ds], cs.drop ds.length)
      else if c = '"' then (['"'], rest)
      else (['\\', c], rest)

/-- A text with its escapes resolved. -/
def unescape : (fuel : Nat) → List Char → List Char
  | 0, cs => cs
  | fuel + 1, cs =>
    match cs with
    | [] => []
    | '\\' :: rest =>
      let (c, rest) := unescapeOne rest
      c ++ unescape fuel rest
    | c :: rest => c :: unescape fuel rest

/-- A text in a field of some width. -/
def padded (left zero : Bool) (width : Nat) (cs : List Char) : List Char :=
  let pad := width - cs.length
  if left then cs ++ List.replicate pad ' '
  else List.replicate pad (if zero then '0' else ' ') ++ cs

/-- One argument in the form of a conversion. -/
def convert (kind : Char) (arg : List Char) : List Char :=
  let number : Int := ((Numeral.signed? arg).map Int64.toInt).getD 0
  if kind = 'd' ∨ kind = 'i' ∨ kind = 'u' then Numeral.ofInt number
  else if kind = 'x' then Nat.toDigits 16 number.toNat
  else if kind = 'o' then Nat.toDigits 8 number.toNat
  else if kind = 'c' then arg.take 1
  else if kind = 'b' then unescape arg.length arg
  else arg

/-- A format filled in with arguments, and the arguments that are left. -/
def fill : (fuel : Nat) → List Char → List (List Char) → List Char × List (List Char)
  | 0, _, args => ([], args)
  | fuel + 1, cs, args =>
    match cs with
    | [] => ([], args)
    | '\\' :: rest =>
      let (c, rest) := unescapeOne rest
      let (more, args) := fill fuel rest args
      (c ++ more, args)
    | '%' :: '%' :: rest =>
      let (more, args) := fill fuel rest args
      ('%' :: more, args)
    | '%' :: rest =>
      let flags := rest.takeWhile fun c => c == '-' || c == '0'
      let rest := rest.drop flags.length
      let width := rest.takeWhile Char.isDigit
      match rest.drop width.length with
      | kind :: rest =>
        let out := padded (flags.contains '-') (flags.contains '0')
          ((Numeral.natural? width).getD 0) (convert kind (args.head?.getD []))
        let (more, args) := fill fuel rest (args.drop 1)
        (out ++ more, args)
      | [] => ([], args)
    | c :: rest =>
      let (more, args) := fill fuel rest args
      (c :: more, args)

/-- A format used as often as the arguments need it. -/
def fillAll (format : List Char) : (fuel : Nat) → List (List Char) → List Char
  | 0, _ => []
  | fuel + 1, args =>
    let (out, left) := fill (format.length + 1) format args
    if left.isEmpty || left.length = args.length then out else out ++ fillAll format fuel left

/-- Says its arguments in a format. -/
def printf (s : Shell) (args : List (List Char)) : Ran :=
  match args with
  | format :: args => (s.say (fillAll format (args.length + 1) args)).ends 0
  | [] => s.ends 2

/-- Says its arguments on a line. -/
def echo (s : Shell) (args : List (List Char)) : Ran :=
  let (stays, args) := match args with
    | ['-', 'n'] :: rest => (true, rest)
    | _ => (false, args)
  let line := [' '].intercalate args
  (s.say (unescape line.length line ++ if stays then [] else ['\n'])).ends 0

/-- Whether a condition on texts and numbers holds. -/
def holds (args : List (List Char)) : Bool :=
  let number (cs : List Char) : Int := ((Numeral.signed? cs).map Int64.toInt).getD 0
  match args with
  | [a] => !a.isEmpty
  | [op, a] =>
    if op = ['-', 'n'] then !a.isEmpty
    else if op = ['-', 'z'] then a.isEmpty
    else if op = ['!'] then a.isEmpty
    else false
  | [a, op, b] =>
    if op = ['='] then a == b
    else if op = ['!', '='] then a != b
    else if op = ['-', 'e', 'q'] then number a == number b
    else if op = ['-', 'n', 'e'] then number a != number b
    else if op = ['-', 'l', 't'] then number a < number b
    else if op = ['-', 'l', 'e'] then number a ≤ number b
    else if op = ['-', 'g', 't'] then number a > number b
    else if op = ['-', 'g', 'e'] then number a ≥ number b
    else false
  | _ => false

/-- The characters that a set names: itself, escapes, and ranges. -/
def setOf : (fuel : Nat) → List Char → List Char
  | 0, _ => []
  | fuel + 1, cs =>
    match cs with
    | [] => []
    | '\\' :: rest =>
      let (c, rest) := unescapeOne rest
      c ++ setOf fuel rest
    | a :: '-' :: b :: rest =>
      (List.range (b.toNat + 1 - a.toNat)).map (fun i => Char.ofNat (a.toNat + i)) ++
        setOf fuel rest
    | c :: rest => c :: setOf fuel rest

/-- The replacement of a character: the one in the same place, or the last. -/
def exchange (old new : List Char) (c : Char) : Char :=
  match old.idxOf? c with
  | some i => (new[i]? <|> new.getLast?).getD c
  | none => c

/-- Replaces or removes characters of its input. -/
def substitute (s : Shell) (args : List (List Char)) : Ran :=
  let set (cs : List Char) : List Char := setOf cs.length cs
  match args with
  | [['-', 'd'], old] => s.filter fun cs => cs.filter fun c => !(set old).contains c
  | [old, new] => s.filter fun cs => cs.map (exchange (set old) (set new))
  | _ => s.ends 1

/-- Counts the octets of its input. -/
def count (s : Shell) : Ran :=
  if s.input.ended then
    let (cs, s) := s.takeOctets s.input.arrived.length
    (s.say (digits cs.length ++ ['\n'])).ends 0
  else ⟨s, some .awaiting⟩

/-- The end of the shell. -/
def exit (s : Shell) (args : List (List Char)) : Ran :=
  let status := match args with
    | n :: _ => (Numeral.natural? n).getD 2 % 256
    | [] => s.status
  ⟨{ s with status := status }, some .exited⟩

/-- The names of commands that are programs of their own. -/
def programs : List String :=
  ["cat", "head", "sleep", "printf", "echo", "true", "false", "test", "tr", "wc"]

/-- A command that runs no other command. -/
def simple (s : Shell) (name : List Char) (args : List (List Char)) : Ran :=
  match String.ofList name with
  | "cat" => s.cat args
  | "head" => s.head args
  | "sleep" => s.sleep args
  | "printf" => s.printf args
  | "echo" => s.echo args
  | "read" => s.readLine args
  | "test" => s.ends (if holds args then 0 else 1)
  | "[" => s.ends (if holds args.dropLast then 0 else 1)
  | "tr" => s.substitute args
  | "wc" => s.count
  | "exit" => s.exit args
  | "kill" => ⟨s, some .exited⟩
  | "break" => ⟨s, some .left⟩
  | "shift" => { s with args := s.args.take 1 ++ s.args.drop 2 }.ends 0
  | "set" => { s with args := s.args.take 1 ++ args.filter (· != ['-', '-']) }.ends 0
  | "unset" => { s with named := s.named.filter fun entry => !args.contains entry.1 }.ends 0
  | "true" => s.ends 0
  | ":" => s.ends 0
  | "trap" => s.ends 0
  | "export" => s.ends 0
  | "wait" => s.ends 0
  | "false" => s.ends 1
  | _ => s.ends 127

end Shell

end LspClient.Child
