/-!
# Time stamps

A date `2006-1-2`, alone or followed by a time: after `T` or `t` with a zone, after blanks without one.
Only the form is checked here; no value is kept.
-/

namespace FlowCompiler.Document.Timestamp

def shortNumber : List Char → Option (Nat × List Char)
  | a :: b :: r =>
    if !a.isDigit then none
    else if b.isDigit then some ((a.toNat - 48) * 10 + (b.toNat - 48), r)
    else some (a.toNat - 48, b :: r)
  | [a] => if a.isDigit then some (a.toNat - 48, []) else none
  | [] => none

def twoDigits : List Char → Option (Nat × List Char)
  | a :: b :: r =>
    if a.isDigit && b.isDigit then some ((a.toNat - 48) * 10 + (b.toNat - 48), r) else none
  | _ => none

def expect (c : Char) : List Char → Option (List Char)
  | d :: r => if c = d then some r else none
  | [] => none

def daysIn (year month : Nat) : Nat :=
  if month = 2 then
    (if year % 4 = 0 ∧ (year % 100 ≠ 0 ∨ year % 400 = 0) then 29 else 28)
  else if [4, 6, 9, 11].contains month then 30
  else 31

/-- Reads a date after checking that its year has four digits, and gives what follows. -/
def date (cs : List Char) : Option (List Char) := do
  let year := cs.takeWhile Char.isDigit
  if year.length ≠ 4 then none
  else do
    let r ← expect '-' (cs.drop 4)
    let (month, r) ← shortNumber r
    let r ← expect '-' r
    let (day, r) ← shortNumber r
    let y := year.foldl (fun n d => n * 10 + (d.toNat - 48)) 0
    if 1 ≤ month ∧ month ≤ 12 ∧ 1 ≤ day ∧ day ≤ daysIn y month then some r else none

/-- Reads a time of day, with an optional fraction of a second. -/
def time (cs : List Char) : Option (List Char) := do
  let (hour, r) ← shortNumber cs
  let r ← expect ':' r
  let (minute, r) ← shortNumber r
  let r ← expect ':' r
  let (second, r) ← shortNumber r
  if hour < 24 ∧ minute < 60 ∧ second < 60 then
    match r with
    | p :: d :: s => if (p == '.' || p == ',') && d.isDigit then some (s.dropWhile Char.isDigit) else some r
    | _ => some r
  else none

/-- Reads a time zone: `Z`, or a sign and an offset. -/
def zone : List Char → Option (List Char)
  | 'Z' :: r => some r
  | c :: r =>
    if c = '+' ∨ c = '-' then do
      let (hour, r) ← twoDigits r
      let r ← expect ':' r
      let (minute, r) ← twoDigits r
      if hour ≤ 24 ∧ minute ≤ 60 then some r else none
    else none
  | [] => none

def isTimestamp (cs : List Char) : Bool :=
  match date cs with
  | none => false
  | some [] => true
  | some (c :: r) =>
    if c = 'T' ∨ c = 't' then ((time r).bind zone) == some []
    else if c = ' ' then time (r.dropWhile (· == ' ')) == some []
    else false

end FlowCompiler.Document.Timestamp
