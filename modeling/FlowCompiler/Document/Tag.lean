import FlowCompiler.Document.Timestamp
import FlowCompiler.Number.Binary64
import FlowCompiler.Number.Word
import FlowCompiler.Text.Base64

/-!
# Tags and the readings of scalars

The tag of a node says what kind of value it is. A plain scalar without a tag gets one from its text:
`resolve` gives the reading of a text, and `Reading.tag` its tag. A scalar with a tag of its own has to have
a reading of that tag, if the tag is one of those that a text can have.
-/

namespace FlowCompiler.Document

open Number

/-- The tag of a node. -/
inductive Tag where
  | null
  | bool
  | int
  | float
  | timestamp
  | str
  | binary
  | merge
  | seq
  | map
  | custom (name : String)
deriving DecidableEq, Repr, Inhabited

namespace Tag

def text : Tag → String
  | null => "!!null"
  | bool => "!!bool"
  | int => "!!int"
  | float => "!!float"
  | timestamp => "!!timestamp"
  | str => "!!str"
  | binary => "!!binary"
  | merge => "!!merge"
  | seq => "!!seq"
  | map => "!!map"
  | custom name => name

/-- The tags with a short text of their own. -/
def standard : List Tag := [null, bool, int, float, timestamp, str, binary, merge, seq, map]

def standardStart : List Char := "tag:yaml.org,2002:".toList

def ofText (s : String) : Tag :=
  let short := match standardStart.isPrefixOf s.toList with
    | true => String.ofList ("!!".toList ++ s.toList.drop standardStart.length)
    | false => s
  (standard.find? (·.text == short)).getD (custom short)

end Tag

/-- What a scalar's text stands for. -/
inductive Reading where
  | null
  | bool (b : Bool)
  | int (n : Int)
  | float (x : Binary64)
  | infinity (negative : Bool)
  | nan
  | timestamp
  | merge
  | binary (content : String)
  | text
deriving DecidableEq, Repr

def Reading.tag : Reading → Tag
  | null => .null
  | bool _ => .bool
  | int _ => .int
  | float _ | infinity _ | nan => .float
  | timestamp => .timestamp
  | merge => .merge
  | binary _ => .binary
  | text => .str

/-- Words with a reading of their own. -/
def word? (s : String) : Option Reading :=
  if ["", "~", "null", "Null", "NULL"].contains s then some .null
  else if ["true", "True", "TRUE"].contains s then some (.bool true)
  else if ["false", "False", "FALSE"].contains s then some (.bool false)
  else if [".nan", ".NaN", ".NAN"].contains s then some .nan
  else if [".inf", ".Inf", ".INF", "+.inf", "+.Inf", "+.INF"].contains s then some (.infinity false)
  else if ["-.inf", "-.Inf", "-.INF"].contains s then some (.infinity true)
  else none

/-- Passes over digits, which are at least one if `needed`. -/
def skipDigits (needed : Bool) (cs : List Char) : Option (List Char) :=
  if needed && !(cs.head?.any Char.isDigit) then none else some (cs.dropWhile Char.isDigit)

/-- Whether a text is a decimal number with optional sign, fraction and exponent. -/
def isDecimal (cs : List Char) : Bool :=
  let unsigned := match cs with
    | '-' :: r | '+' :: r => r
    | _ => cs
  let mantissa := match unsigned with
    | '.' :: r => skipDigits true r
    | r => (skipDigits true r).map fun r =>
      match r with
      | '.' :: f => f.dropWhile Char.isDigit
      | _ => r
  match mantissa with
  | none => false
  | some [] => true
  | some (e :: r) =>
    (e == 'e' || e == 'E') &&
      skipDigits true (match r with
        | '-' :: d | '+' :: d => d
        | _ => r) == some []

/-- Reads the digits of an integer in base `base`, within the range of 64 bits. A sign takes one bit. -/
def digits64? (base : Nat) (negative : Bool) (cs : List Char) : Option Int :=
  if cs.isEmpty then none
  else
    (digitsValue? base 0 cs).bind fun n =>
      if negative then (if n ≤ Number.wordBound then some (-(n : Int)) else none)
      else if n < Number.wordCount then some n
      else none

/-- Reads an integer after `0b` or `0o`, with an optional minus sign before and a second sign after it. -/
def based? (mark : Char) (base : Nat) (cs : List Char) : Option Int :=
  match cs with
  | '0' :: m :: r =>
    if m ≠ mark then none
    else
      match r with
      | '-' :: d => digits64? base true d
      | '+' :: d => (digits64? base false d).filter (· < (Number.wordBound : Int))
      | _ => digits64? base false r
  | '-' :: '0' :: m :: r => if m = mark then digits64? base true r else none
  | _ => none

/-- Reads a text that starts with a digit or a sign. -/
def numberReading (allowStamp : Bool) (cs : List Char) : Reading :=
  if allowStamp && Timestamp.isTimestamp cs then .timestamp
  else
    let plain := cs.filter (· != '_')
    match (signed? 64 plain).orElse (fun _ => (unsigned? 64 plain).map Int.ofNat) with
    | some n => .int n
    | none =>
      match (if isDecimal plain then Binary64.ofLiteral? plain else none) with
      | some x => .float x
      | none =>
        match (based? 'b' 2 plain).orElse (fun _ => based? 'o' 8 plain) with
        | some n => .int n
        | none => .text

/-- The reading of a plain text, by its first character. A time stamp is only tried if `allowStamp` holds.
-/
def reading (allowStamp : Bool) (s : String) : Reading :=
  match s.toList with
  | [] => .null
  | c :: r =>
    if "yYnNtTfFoO~".toList.contains c then (word? s).getD .text
    else if c == '.' then
      match word? s with
      | some w => w
      | none =>
        match Binary64.ofLiteral? (c :: r) with
        | some x => .float x
        | none => .text
    else if c.isDigit || c == '+' || c == '-' then
      (word? s).getD (numberReading allowStamp (c :: r))
    else if s = "<<" then .merge
    else .text

/-- Why a scalar has no reading of its tag. -/
inductive Mismatch where
  | unlike (found : Tag) (text : String) (wanted : Tag)
  | badBase64
deriving DecidableEq, Repr

def Mismatch.message : Mismatch → String
  | unlike found text wanted =>
    let found := found.text
    let wanted := wanted.text
    s!"cannot decode {found} `{text}` as a {wanted}"
  | badBase64 => "!!binary value contains invalid base64 data"

/-- The tags that a plain text can be read as. -/
def Tag.scalars : List Tag := [null, bool, int, float, timestamp, str]

/-- The reading of a text as a value of a tag. Any text is a `!!str`, a signed integer of 64 bits is also a
float, a `!!binary` is base64, and the text of any other tag stands for itself. -/
def resolve (tag : Tag) (s : String) : Except Mismatch Reading :=
  if tag = .binary then
    match Text.ofBase64? s with
    | some content => .ok (.binary content)
    | none => .error .badBase64
  else if tag = .str ∨ !Tag.scalars.contains tag then .ok .text
  else
    let r := reading (tag == .timestamp) s
    if r.tag = tag then .ok r
    else
      match tag, r with
      | .float, .int n =>
        if n < (Number.wordBound : Int) then
          .ok (match Binary64.ofRatio? (n < 0) n.natAbs 1 with
            | some x => .float x
            | none => .infinity (n < 0))
        else .error (.unlike .int s tag)
      | _, _ => .error (.unlike r.tag s tag)

end FlowCompiler.Document
