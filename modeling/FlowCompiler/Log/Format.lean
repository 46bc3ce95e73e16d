import FlowCompiler.Log.Record
import FlowCompiler.Text.Blank
import FlowCompiler.Text.Letter
import FlowCompiler.Text.LetterCase
import FlowCompiler.Text.Quoted

/-!
# Writing log records

A logger writes the records of its level and above, one a line, as plain text or as JSON objects. The time of
a record is given from outside.
-/

namespace FlowCompiler.Log

/-! ## Levels -/

def Level.name : Level → String
  | debug => "DEBUG"
  | info => "INFO"
  | warn => "WARN"
  | error => "ERROR"

def levels : List Level := [.debug, .info, .warn, .error]

/-- The name of a number: that of the highest level below it, and the distance. -/
def numberName (n : Int) : String :=
  let base := (levels.filter (·.number ≤ n)).getLastD .debug
  let distance := n - base.number
  if distance = 0 then base.name
  else if 0 < distance then s!"{base.name}+{distance}"
  else s!"{base.name}{distance}"

/-- A text in a colour of a terminal, if colours are asked for. -/
def coloured (colours : Bool) (code : String) (s : String) : String :=
  if colours then "\x1b[" ++ code ++ "m" ++ s ++ "\x1b[0m" else s

def Level.mark (colours : Bool) : Level → String
  | debug => "DBG"
  | info => coloured colours "32" "INF"
  | warn => coloured colours "33" "WRN"
  | error => coloured colours "31" "ERR"

/-- The mark for a number, or its name if there is none. -/
def numberMark (colours : Bool) (n : Int) : String :=
  match levels.find? (·.number == n) with
  | none | some .debug => numberName n
  | some l => l.mark colours

/-! ## Lines of text -/

def needsQuotes (s : String) : Bool :=
  s == "" || s.toList.any fun c => Text.isBlank c || c == '"' || c == '=' || !Text.isPrintable c

/-- Drops the controls of a terminal, from an escape character to a letter. `inside` tells whether one has
begun. -/
def dropControls (inside : Bool) : List Char → List Char
  | [] => []
  | c :: cs =>
    if c = '\x1b' then dropControls true cs
    else if inside then dropControls (!Text.isLetter c) cs
    else c :: dropControls false cs

/-- A text as a line shows it: without controls, up to the first byte that belongs to no character. -/
def lineText (s : String) : String :=
  let legible := (Text.shownChars s.toList).takeWhile (· != Text.replacement)
  Text.received (String.ofList (dropControls false legible))

def Datum.line : Datum → String
  | .text s =>
    let shown := lineText s
    if needsQuotes shown then Text.quote shown else shown
  | .int n => toString n

def Record.line (time : String) (r : Record) : String :=
  " ".intercalate ([time, r.level.mark false, r.message] ++ r.data.map fun (k, d) => k ++ "=" ++ d.line)
    ++ "\n"

/-! ## Lines of JSON -/

def jsonChar (c : Char) : List Char :=
  if c = '"' ∨ c = '\\' then ['\\', c]
  else if c = '\n' then ['\\', 'n']
  else if c = '\r' then ['\\', 'r']
  else if c = '\t' then ['\\', 't']
  else if c.toNat < 0x20 ∨ c.toNat = 0x2028 ∨ c.toNat = 0x2029 then
    '\\' :: 'u' :: Text.hexDigits 4 c.toNat
  else [c]

def jsonRune : Text.Rune → List Char
  | .char c => jsonChar c
  | .byte _ => [Text.replacement]

def jsonString (s : String) : String :=
  Text.received ("\"" ++ String.ofList ((Text.runesOf s.toList).flatMap jsonRune) ++ "\"")

def Datum.json : Datum → String
  | .text s => jsonString s
  | .int n => toString n

def Record.json (time : String) (r : Record) : String :=
  let fields := [("time", Datum.text time), ("level", .text r.level.name), ("msg", .text r.message)]
  "\x7b" ++ ",".intercalate ((fields ++ r.data).map fun (k, d) => jsonString k ++ ":" ++ d.json) ++
    "\x7d\n"

/-! ## Loggers -/

/-- How records are written. -/
inductive Format where
  | text
  | json
deriving DecidableEq, Repr

/-- The least level that is written, and how. -/
structure Logger where
  level : Level
  format : Format
deriving DecidableEq, Repr

/-- Why there is no logger. -/
inductive LoggerError where
  | unknownLevel (name : String)
  | unknownFormat (name : String)
deriving DecidableEq, Repr

def LoggerError.message : LoggerError → String
  | unknownLevel name =>
    "unknown log level " ++ Text.quote name ++ ": use debug, info, warn or error"
  | unknownFormat name => "unknown log format " ++ Text.quote name ++ ": use text or json"

namespace Logger

def ofNames (level format : String) : Except LoggerError Logger :=
  match levels.find? fun l => Text.lowercase l.name == Text.lowercase level with
  | none => .error (.unknownLevel level)
  | some l =>
    if Text.lowercase format = "text" then .ok ⟨l, .text⟩
    else if Text.lowercase format = "json" then .ok ⟨l, .json⟩
    else .error (.unknownFormat format)

def writes (g : Logger) (l : Level) : Bool := g.level.number ≤ l.number

def lines (g : Logger) (time : String) (records : List Record) : String :=
  String.join <| (records.filter fun r => g.writes r.level).map fun r =>
    match g.format with
    | .text => r.line time
    | .json => r.json time

end Logger

end FlowCompiler.Log
