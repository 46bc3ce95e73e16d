import FlowCompiler.Number.Word
import FlowCompiler.Source.Identifier
import FlowCompiler.Text.Quoted

/-!
# Lexemes of source text

The words, numbers, quoted texts, signs and comments of a source text, each with the place where it starts.
A line that ends after a lexeme that can end a statement gives a semicolon of its own, whose text is the line
end. Comments are lexemes too: they are kept when a text is laid out.

Places are byte offsets, counted from one; zero is no place.
-/

namespace FlowCompiler.Source

abbrev Place := Nat

/-- The kind of a lexeme. -/
inductive Tok where
  | none
  | stop
  | comment
  | name
  | int
  | float
  | imaginary
  | character
  | string
  | sign (s : String)
  | keyword (s : String)
deriving DecidableEq, Repr, Inhabited

namespace Tok

def isNumber : Tok → Bool
  | int | float | imaginary => true
  | _ => false

def isLiteral : Tok → Bool
  | int | float | imaginary | character | string => true
  | _ => false

/-- How tightly a binary operator binds, zero for what is none. -/
def precedence : Tok → Nat
  | sign "||" => 1
  | sign "&&" => 2
  | sign "==" | sign "!=" | sign "<" | sign "<=" | sign ">" | sign ">=" => 3
  | sign "+" | sign "-" | sign "|" | sign "^" => 4
  | sign "*" | sign "/" | sign "%" | sign "<<" | sign ">>" | sign "&" | sign "&^" => 5
  | _ => 0

def text : Tok → String
  | sign s | keyword s => s
  | _ => ""

end Tok

/-- A lexeme: its kind, its text and where it starts. -/
structure Lexeme where
  tok : Tok
  text : String
  place : Place
deriving DecidableEq, Repr, Inhabited

namespace Lexeme

/-! ## Numbers -/

/-- The base of a number. A leading zero alone is octal, unless the number turns out to be a decimal
fraction. -/
inductive Base where
  | decimal
  | octal
  | hex
  | markedOctal
  | binary
deriving DecidableEq, Repr

def digits (base : Base) (cs : List Char) : List Char :=
  if base = .hex then cs.takeWhile fun c => (Text.hexValue? c).isSome || c == '_'
  else cs.takeWhile fun c => c.isDigit || c == '_'

def hasDigit (cs : List Char) : Bool := cs.any (· != '_')

def inBase (base : Base) (cs : List Char) : Bool :=
  match base with
  | .decimal | .hex => true
  | .octal | .markedOctal => cs.all fun c => c == '_' || c.toNat < 56
  | .binary => cs.all fun c => c == '_' || c.toNat < 50

/-- Whether underscores stand only between digits, or between the mark of a base and a digit. `before` tells
what came before. -/
def separated (before : Char) : List Char → Bool
  | [] => before != '_'
  | c :: rest =>
    if c == '_' then before == '0' && separated '_' rest
    else if c.isAlphanum && c != 'p' && c != 'P' then separated '0' rest
    else before != '_' && separated '.' rest

/-- A number cut into its parts. `mark` holds the mark of the base as it is written. -/
structure Parts where
  base : Base
  mark : List Char
  whole : List Char
  fraction : Option (List Char)
  exponent : Option (Char × List Char × List Char)
  imaginary : Bool
  rest : List Char

/-- The mark of the base at the start of a number. A leading zero alone is no mark. -/
def baseMark : List Char → Base × List Char
  | '0' :: c :: _ =>
    let mark := c.toLower
    if mark == 'x' then (.hex, ['0', c])
    else if mark == 'o' then (.markedOctal, ['0', c])
    else if mark == 'b' then (.binary, ['0', c])
    else (.octal, [])
  | '0' :: [] => (.octal, [])
  | _ => (.decimal, [])

def cut (cs : List Char) : Parts :=
  let (base, mark) := baseMark cs
  let cs := cs.drop mark.length
  let whole := digits base cs
  let cs := cs.drop whole.length
  let (fraction, cs) := match cs with
    | '.' :: r =>
      let f := digits base r
      (some f, r.drop f.length)
    | _ => (none, cs)
  let (exponent, cs) := match cs with
    | e :: r =>
      let small := e.toLower
      if small == 'e' || small == 'p' then
        let plus := (r.take 1).filter fun c => c == '+' || c == '-'
        let r := r.drop plus.length
        let d := digits .decimal r
        (some (e, plus, d), r.drop d.length)
      else (none, cs)
    | [] => (none, cs)
  match cs with
  | 'i' :: r => ⟨base, mark, whole, fraction, exponent, true, r⟩
  | _ => ⟨base, mark, whole, fraction, exponent, false, cs⟩

namespace Parts

def valid (n : Parts) : Bool :=
  let marked := n.base == .markedOctal || n.base == .binary
  let whole := n.fraction.isNone && n.exponent.isNone && !n.imaginary
  let all := n.whole ++ n.fraction.getD []
  let exponentOk := match n.exponent with
    | none => !(n.base == .hex && n.fraction.isSome)
    | some (e, _, d) =>
      hasDigit d && (if n.base == .hex then e.toLower == 'p' else e.toLower == 'e' && !marked)
  hasDigit all && !(marked && n.fraction.isSome) && exponentOk && (!whole || inBase n.base n.whole) &&
    separated (if n.mark.isEmpty then '.' else '0') n.whole &&
    (n.fraction.all (separated '.')) && (n.exponent.all fun (_, _, d) => separated '.' d)

/-- The text of a number, with its marks and its exponent sign as they are given. -/
def textWith (n : Parts) (mark : List Char) (exponentMark : Char → Char) : List Char :=
  let exponent := match n.exponent with
    | some (e, plus, d) => exponentMark e :: plus ++ d
    | none => []
  let fraction := match n.fraction with
    | some f => '.' :: f
    | none => []
  mark ++ n.whole ++ fraction ++ exponent

/-- The text of a number as it is written. -/
def text (n : Parts) : List Char :=
  n.textWith n.mark id ++ if n.imaginary then ['i'] else []

/-- The usual form of a number: small marks, and no leading zeros of a whole imaginary number. -/
def usual (n : Parts) : List Char :=
  let plain := n.textWith (n.mark.map Char.toLower) Char.toLower
  if !n.imaginary then plain
  else if n.mark.isEmpty && n.fraction.isNone && n.exponent.isNone then
    match plain.dropWhile fun c => c == '0' || c == '_' with
    | [] => ['0', 'i']
    | cs => cs ++ ['i']
  else plain ++ ['i']

def tok (n : Parts) : Tok :=
  if n.imaginary then .imaginary
  else if n.fraction.isSome || n.exponent.isSome then .float
  else .int

end Parts

def usualNumber (s : String) : String := String.ofList (cut s.toList).usual

/-! ## Quoted text -/

/-- Reads to the closing quote, which is kept. Gives the characters, how many they stand for, and the rest.
-/
def quotedRest (quote : Char) : Nat → List Char → Option (List Char × Nat × List Char)
  | 0, _ => none
  | _, [] => none
  | fuel + 1, c :: cs =>
    if c == quote then some ([c], 0, cs)
    else if c == '\n' then none
    else if c == '\\' then
      match cs with
      | q :: r =>
        let after : Option (List Char) :=
          if q == quote then some r
          else if q == '"' || q == '\'' then none
          else (Text.takeEscape cs).map (·.2)
        after.bind fun r =>
          (quotedRest quote fuel r).map fun (body, n, rest) =>
            (c :: cs.take (cs.length - r.length) ++ body, n + 1, rest)
      | [] => none
    else (quotedRest quote fuel cs).map fun (body, n, rest) => (c :: body, n + 1, rest)

/-! ## Signs -/

def signs : List String := [
  "<<=", ">>=", "&^=", "...", "&&", "||", "<-", "++", "--", "==", "!=", "<=", ">=", ":=", "+=", "-=",
  "*=", "/=", "%=", "&=", "|=", "^=", "<<", ">>", "&^", "+", "-", "*", "/", "%", "&", "|", "^", "<",
  ">", "=", "!", "(", ")", "[", "]", "\x7b", "\x7d", ",", ";", ".", ":", "~"]

def sign? (cs : List Char) : Option String := signs.find? fun s => s.toList.isPrefixOf cs

/-! ## Comments -/

/-- The characters of a block comment after its opening, the closing included, and the rest. -/
def blockComment : List Char → Option (List Char × List Char)
  | [] => none
  | '*' :: '/' :: rest => some (['*', '/'], rest)
  | c :: rest => (blockComment rest).map fun (body, rest) => (c :: body, rest)

/-- Drops the carriage returns of a block comment, except between an asterisk and a slash that must not end
it. `kept` counts the characters before. -/
def dropReturns (kept : Nat) (before : Char) : List Char → List Char
  | [] => []
  | c :: rest =>
    if c == '\r' && !(2 < kept && before == '*' && rest.head? == some '/') then
      dropReturns kept before rest
    else c :: dropReturns (kept + 1) c rest

/-- The place after the last colon of a text, and the number that follows it, if it is one. -/
def trailingNumber (cs : List Char) : Nat × Option Nat :=
  let after := (cs.reverse.takeWhile (· != ':')).reverse
  if after.length = cs.length then (0, none)
  else
    let n := if !after.isEmpty && after.all Char.isDigit then (String.ofList after).toNat? else none
    (cs.length - after.length, n.filter (· < Number.wordCount))

def maxLineNumber : Nat := 0x40000000

/-- Whether a comment with a number after a colon gives a proper line number. -/
def lineNumberFits (cs : List Char) : Bool :=
  match trailingNumber cs with
  | (0, _) => true
  | (_, none) => false
  | (i, some n) =>
    match trailingNumber (cs.take (i - 1)) with
    | (_, some line) => 0 < n && n ≤ maxLineNumber && 0 < line && line ≤ maxLineNumber
    | (_, none) => 0 < n && n ≤ maxLineNumber

/-- Whether a comment can stand in a source text. `atLineStart` tells whether it starts a line. -/
def commentFits (atLineStart : Bool) (text : List Char) : Bool :=
  let block := text.take 2 == ['/', '*']
  let inner := if block then text.take (text.length - 2) else text
  if (block || atLineStart) && "line ".toList.isPrefixOf (text.drop 2) then
    lineNumberFits (inner.drop 7)
  else true

/-! ## All lexemes -/

/-- Whether a line end after a lexeme gives a semicolon. -/
def endsStatement (l : Lexeme) : Bool :=
  match l.tok with
  | .name => true
  | .keyword s => ["break", "continue", "fallthrough", "return"].contains s
  | .sign s => ["++", "--", ")", "]", "\x7d"].contains s
  | t => t.isLiteral

/-- The first lexeme of a text that starts with no blank, and what follows it. -/
def next (place : Place) (cs : List Char) : Option (Lexeme × List Char) :=
  match cs with
  | [] => none
  | c :: r =>
    if startsIdentifier c then
      let word := String.ofList (cs.takeWhile Text.isWord)
      let tok := if keywords.contains word then Tok.keyword word else .name
      some (⟨tok, word, place⟩, cs.dropWhile Text.isWord)
    else if c.isDigit || (c == '.' && r.head?.any Char.isDigit) then
      let n := cut cs
      if n.valid then some (⟨n.tok, String.ofList n.text, place⟩, n.rest) else none
    else if c == '"' || c == '\'' then
      match quotedRest c (cs.length + 1) r with
      | some (body, n, rest) =>
        if c == '\'' && n != 1 then none
        else some (⟨if c == '"' then .string else .character, String.ofList (c :: body), place⟩, rest)
      | none => none
    else if c == '`' then
      let body := r.takeWhile (· != '`')
      match r.drop body.length with
      | q :: rest =>
        some (⟨.string, String.ofList (c :: body.filter (· != '\r') ++ [q]), place⟩, rest)
      | [] => none
    else (sign? cs).map fun s => (⟨.sign s, s, place⟩, cs.drop s.length)

def byteCount (cs : List Char) : Nat := cs.foldl (fun n c => n + c.utf8Size) 0

def lineEnd (place : Place) : Lexeme := ⟨.sign ";", "\n", place⟩

/-- The lexemes of a text from a place on. `ends` tells whether a line end gives a semicolon here. -/
def all : Nat → Place → Bool → Place → List Char → Option (List Lexeme)
  | 0, _, _, _, _ => none
  | _, place, ends, _, [] => some (if ends then [lineEnd place, ⟨.stop, "", place⟩] else [⟨.stop, "", place⟩])
  | fuel + 1, place, ends, lineStart, c :: cs =>
    if c == '\n' then
      (all fuel (place + 1) false (place + 1) cs).map fun ls =>
        if ends then lineEnd place :: ls else ls
    else if c == ' ' || c == '\t' || c == '\r' then all fuel (place + 1) ends lineStart cs
    else if c == '/' && cs.head? == some '/' then
      let body := c :: cs.takeWhile (· != '\n')
      let shown := if body.getLast? == some '\r' then body.dropLast else body
      if commentFits (place == lineStart) shown then
        (all fuel (place + byteCount body) ends lineStart (cs.dropWhile (· != '\n'))).map
          (⟨.comment, String.ofList (shown.filter (· != '\r')), place⟩ :: ·)
      else none
    else if c == '/' && cs.head? == some '*' then
      (blockComment (cs.drop 1)).bind fun (body, rest) =>
        let text := '/' :: '*' :: body
        let shown := dropReturns 0 ' ' text
        if commentFits (place == lineStart) text then
          let after := place + byteCount text
          let first := text.takeWhile (· != '\n')
          let breaks := first.length < text.length
          let lineStart :=
            if breaks then after - byteCount (text.reverse.takeWhile (· != '\n')) else lineStart
          (all fuel after (ends && !breaks) lineStart rest).map fun ls =>
            ⟨.comment, String.ofList shown, place⟩ ::
              if ends && breaks then lineEnd (place + byteCount first) :: ls else ls
        else none
    else
      (next place (c :: cs)).bind fun (l, rest) =>
        let taken := byteCount ((c :: cs).take (cs.length + 1 - rest.length))
        (all fuel (place + taken) (endsStatement l) lineStart rest).map (l :: ·)

def isSourceChar (c : Char) : Bool := c != '\x00' && c.toNat != 0xFEFF

/-- The lexemes of a text, the last of which marks its end. -/
def ofText (s : String) : Option (List Lexeme) :=
  let cs := s.toList
  if cs.all isSourceChar then all (cs.length + 1) 1 false 1 cs else none

end Lexeme

end FlowCompiler.Source
