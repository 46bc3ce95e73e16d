import FlowCompiler.Catalog.Numeral
import FlowCompiler.Text.Cut
import FlowCompiler.Text.Quoted

/-!
# Command lines

A command line names a command and gives it flags and operands, in any order. A flag has a name, `--name`,
and may have a letter, `-x`. Its value follows it, or stands in the same word: `--name=value`, `-xvalue`,
`-x=value`. A switch needs no value. After `--` all words are operands. Settings for a run of tests,
`-test.…`, are passed over.
-/

namespace FlowCompiler.Command

/-- A flag. -/
structure Flag where
  name : String
  short : Option Char := none
  switch : Bool := false
deriving DecidableEq, Repr

/-- How many operands a command takes. -/
inductive Arity where
  | exactly (n : Nat)
  | atLeast (n : Nat)
  | atMost (n : Nat)
deriving DecidableEq, Repr

/-- What is wrong with a command line. -/
inductive UsageError where
  | unknownCommand (name : String) (similar : List String)
  | badFlag (word : String)
  | unknownFlag (name : String)
  | unknownShort (letter : Char) (letters : String)
  | noValue (name : String)
  | noShortValue (letter : Char) (letters : String)
  | badSwitch (flag : Flag) (value : String)
  | arity (a : Arity) (given : Nat)
  | missingFlag (name : String)
deriving DecidableEq, Repr

def programName : String := "fbpgen"

/-- A letter in single quotes, as its first byte reads. -/
def quoteLetter (c : Char) : String :=
  let byte := ((String.singleton c).toUTF8.toList.headD 0).toNat
  let body := if c = '\'' then ['\\', '\''] else if c = '"' then ['"'] else Text.quoteChar (Char.ofNat byte)
  "'" ++ String.ofList body ++ "'"

/-- How a switch is named in a message. -/
def Flag.spelling (f : Flag) : String :=
  match f.short with
  | some c => "-" ++ String.singleton c ++ ", --" ++ f.name
  | none => "--" ++ f.name

def Arity.message (given : Nat) : Arity → String
  | exactly n => s!"accepts {n} arg(s), received {given}"
  | atLeast n => s!"requires at least {n} arg(s), only received {given}"
  | atMost n => s!"accepts at most {n} arg(s), received {given}"

def Arity.accepts (given : Nat) : Arity → Bool
  | exactly n => given == n
  | atLeast n => n ≤ given
  | atMost n => given ≤ n

def similarText (names : List String) : String :=
  if names.isEmpty then ""
  else "\n\nDid you mean this?\n" ++ String.join (names.map fun n => "\t" ++ n ++ "\n")

def UsageError.message : UsageError → String
  | unknownCommand name similar =>
    "unknown command " ++ Text.quote name ++ " for " ++ Text.quote programName ++ similarText similar
  | badFlag word => "bad flag syntax: " ++ word
  | unknownFlag name => "unknown flag: --" ++ name
  | unknownShort letter letters => "unknown shorthand flag: " ++ quoteLetter letter ++ " in -" ++ letters
  | noValue name => "flag needs an argument: --" ++ name
  | noShortValue letter letters =>
    "flag needs an argument: " ++ quoteLetter letter ++ " in -" ++ letters
  | badSwitch flag value =>
    "invalid argument " ++ Text.quote value ++ " for " ++ Text.quote flag.spelling ++
      " flag: strconv.ParseBool: parsing " ++ Text.quote value ++ ": invalid syntax"
  | arity a given => a.message given
  | missingFlag name => "required flag(s) " ++ Text.quote name ++ " not set"

/-! ## Flags and operands -/

/-- The values of flags in their order, and the operands. -/
structure Words where
  values : List (String × String) := []
  operands : List String := []
deriving DecidableEq, Repr

namespace Words

def all (w : Words) (name : String) : List String :=
  (w.values.filter (·.1 == name)).map (·.2)

def last (w : Words) (name fallback : String) : String := (w.all name).getLastD fallback

def isOn (w : Words) (name : String) : Bool := Numeral.bool? (w.last name "false") == some true

def give (w : Words) (f : Flag) (value : String) : Except UsageError Words :=
  if f.switch && (Numeral.bool? value).isNone then .error (.badSwitch f value)
  else .ok { w with values := w.values ++ [(f.name, value)] }

end Words

/-- A flag whose value is in the next word, and the error if there is none. -/
abbrev Pending := Flag × UsageError

/-- Reads a word that starts with two dashes. -/
def readLong (flags : List Flag) (w : Words) (word : List Char) :
    Except UsageError (Words × Option Pending) :=
  match word with
  | [] => .error (.badFlag "--")
  | c :: _ =>
    if c = '-' ∨ c = '=' then .error (.badFlag (String.ofList ('-' :: '-' :: word)))
    else
      let (name, value) := match Text.cut? '=' word with
        | some (name, value) => (String.ofList name, some (String.ofList value))
        | none => (String.ofList word, none)
      match flags.find? (·.name == name) with
      | none => .error (.unknownFlag name)
      | some f =>
        match value with
        | some v => (w.give f v).map (·, none)
        | none =>
          if f.switch then (w.give f "true").map (·, none) else .ok (w, some (f, .noValue name))

/-- Whether letters are a setting for a run of tests. -/
def isTestSetting (letters : List Char) : Bool := "test.".toList.isPrefixOf letters

/-- Reads the letters of a word that starts with one dash. -/
def readShort (flags : List Flag) (w : Words) : List Char → Except UsageError (Words × Option Pending)
  | [] => .ok (w, none)
  | c :: rest =>
    let letters := String.ofList (c :: rest)
    if isTestSetting (c :: rest) then .ok (w, none)
    else match flags.find? (·.short == some c) with
    | none => .error (.unknownShort c letters)
    | some f =>
      match rest with
      | '=' :: v :: vs => (w.give f (String.ofList (v :: vs))).map (·, none)
      | _ =>
        if f.switch then
          match w.give f "true" with
          | .error e => .error e
          | .ok w => readShort flags w rest
        else if rest.isEmpty then .ok (w, some (f, .noShortValue c letters))
        else (w.give f (String.ofList rest)).map (·, none)

def readWords (flags : List Flag) (w : Words) (pending : Option Pending) :
    List String → Except UsageError Words
  | [] =>
    match pending with
    | some (_, e) => .error e
    | none => .ok w
  | word :: rest =>
    match pending with
    | some (f, _) =>
      match w.give f word with
      | .error e => .error e
      | .ok w => readWords flags w none rest
    | none =>
      match word.toList with
      | ['-', '-'] => .ok { w with operands := w.operands ++ rest }
      | '-' :: '-' :: name =>
        match readLong flags w name with
        | .error e => .error e
        | .ok (w, pending) => readWords flags w pending rest
      | '-' :: c :: letters =>
        match readShort flags w (c :: letters) with
        | .error e => .error e
        | .ok (w, pending) => readWords flags w pending rest
      | _ => readWords flags { w with operands := w.operands ++ [word] } none rest

/-! ## The command -/

/-- Whether a word is a flag that takes the next word as its value. Unknown flags do. -/
def takesNext (flags : List Flag) (word : String) : Bool :=
  match word.toList with
  | '-' :: '-' :: name =>
    !name.contains '=' && !flags.any fun f => f.name == String.ofList name && f.switch
  | ['-', c] => c != '=' && Text.charSize c == 1 && !flags.any fun f => f.short == some c && f.switch
  | _ => false

def isDashed (word : String) : Bool := word.toList.head? == some '-'

/-- The words that are no flags and no values of flags, up to `--`. -/
def plainWords (flags : List Flag) : List String → List String
  | [] => []
  | word :: rest =>
    if word = "--" then []
    else if takesNext flags word then
      match rest with
      | [] | [_] => []
      | _ :: next => plainWords flags next
    else if word = "" ∨ isDashed word then plainWords flags rest
    else word :: plainWords flags rest

/-- The words without the first plain one that is `name`. -/
def dropPlain (flags : List Flag) (name : String) : List String → List String
  | [] => []
  | word :: rest =>
    if word = "--" then word :: rest
    else if takesNext flags word then
      match rest with
      | [] => [word]
      | value :: next => word :: value :: dropPlain flags name next
    else if word = name then rest
    else word :: dropPlain flags name rest

/-- The next row of the table of distances, for a further character of the first text. -/
def distanceRow (c : UInt8) (left diagonal : Nat) : List UInt8 → List Nat → List Nat
  | d :: ds, above :: row =>
    let here := if c == d then diagonal else min (min left diagonal) above + 1
    here :: distanceRow c here above ds row
  | _, _ => []

/-- The least number of insertions, deletions and replacements of bytes between two texts. -/
def editDistance (a b : String) : Nat :=
  let bs := b.toUTF8.toList
  let first := List.range (bs.length + 1)
  let last := a.toUTF8.toList.foldl (fun row c =>
    match row with
    | [] => []
    | corner :: above => (corner + 1) :: distanceRow c (corner + 1) corner bs above) first
  last.getLastD 0

/-- The names that are close to a word, or start with it. -/
def similarTo (word : String) (names : List String) : List String :=
  names.filter fun n =>
    editDistance (Text.lowercase word) (Text.lowercase n) ≤ 2 ||
      (Text.lowercase word).toList.isPrefixOf (Text.lowercase n).toList

end FlowCompiler.Command
