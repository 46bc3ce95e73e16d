import FlowCompiler.Document.Node

/-!
# Records out of nodes

A document is read into records: structures with named fields that are texts, whole numbers, lists of
records, or nodes left as they are. What does not fit is reported and reading goes on, so that all problems
of a document are known at once; a failure ends reading.

A mapping may take over fields of other mappings by a merge key. Fields of its own come first, and a field
that was given is not given again.

An alias is read as the node that it names. A document in which most of what is read comes from aliases is
refused, and so is one in which an alias is met again while it is followed.
-/

namespace FlowCompiler.Document

/-- What ends the reading of a node at once. -/
inductive Failure where
  | mismatch (m : Mismatch)
  | selfContained (anchor : String)
  | badMerge
  | tooManyAliases
deriving DecidableEq, Repr

def Failure.message : Failure → String
  | mismatch m => "yaml: " ++ m.message
  | selfContained anchor => s!"yaml: anchor '{anchor}' value contains itself"
  | badMerge => "yaml: map merge requires map or sequence of maps as the value"
  | tooManyAliases => "yaml: document contains excessive aliasing"

/-- A part of a document that does not fit the record it is read into. -/
inductive Problem where
  | misfit (line : Nat) (tag : Tag) (text : String) (into : String)
  | repeatedKey (line : Nat) (key : String) (earlier : Nat)
  | repeatedField (line : Nat) (field : String) (record : String)
deriving DecidableEq, Repr

def takeBytes (n : Nat) (s : String) : String := String.ofList (Text.ofBytes ((Text.bytesOf s.toList).take n))

/-- A value shown in a report. A long one is cut, unless its tag is that of a collection. -/
def shownValue (tag : Tag) (text : String) : String :=
  if tag = .seq ∨ tag = .map then text
  else if 10 < Text.size text then " `" ++ takeBytes 7 text ++ "...`"
  else " `" ++ text ++ "`"

def Problem.message : Problem → String
  | misfit line tag text into =>
    let value := shownValue tag text
    let kind := tag.text
    s!"line {line}: cannot unmarshal {kind}{value} into {into}"
  | repeatedKey line key earlier =>
    let quoted := Text.quote key
    s!"line {line}: mapping key {quoted} already defined at line {earlier}"
  | repeatedField line field record => s!"line {line}: field {field} already set in type {record}"

/-- Why a node was not read. -/
inductive DecodeError where
  | problems (ps : List Problem)
  | failure (f : Failure)
deriving DecidableEq, Repr

def DecodeError.message : DecodeError → String
  | problems ps => ps.foldl (fun s p => s ++ "\n  " ++ p.message) "yaml: unmarshal errors:"
  | failure f => f.message

/-- What reading knows: the anchored nodes, and the aliases being followed. -/
structure Scope where
  anchored : List (Nat × Node)
  following : List Position := []

/-- What reading has done, with the nodes it visited in all and by aliases. -/
structure Progress where
  problems : List Problem := []
  visits : Nat := 0
  aliased : Nat := 0

/-- Reading that collects problems and stops at a failure. -/
abbrev Decode := ReaderT Scope (StateT Progress (Except Failure))

/-- Whether too many visits to nodes came from aliases: more than 99 percent, down to 10 percent in large
documents, the first thousand and the first hundred by aliases apart. -/
def Progress.excessive (p : Progress) : Bool :=
  let low := 400000
  let high := 4000000
  -- the allowed part is `0.99 - 0.89 * x`, where `x` tells how far the visits are between the two bounds
  let x := min (p.visits - low) (high - low)
  100 < p.aliased && 1000 < p.visits &&
    (99 * (high - low) - 89 * x) * p.visits < 100 * (high - low) * p.aliased

namespace Decode

def report (p : Problem) : Decode Unit := modify fun s => { s with problems := s.problems ++ [p] }

def stop {α : Type} (f : Failure) : Decode α := fun _ _ => .error f

def visit : Decode Unit := do
  let aliased := if (← read).following.isEmpty then 0 else 1
  modify fun s => { s with visits := s.visits + 1, aliased := s.aliased + aliased }
  if (← get).excessive then stop .tooManyAliases

/-- The result of reading in a document: an error if there is any problem. -/
def run {α : Type} (d : Decode α) (anchored : List (Nat × Node)) : Except DecodeError α :=
  match (ReaderT.run d { anchored }).run {} with
  | .error f => .error (.failure f)
  | .ok (a, p) => if p.problems.isEmpty then .ok a else .error (.problems p.problems)

end Decode

namespace Node

/-- Visits a node and reads it, or the node that an alias stands for, with `read`. -/
def follow {α : Type} (n : Node) (read : Node → Decode α) : Decode α := do
  Decode.visit
  match n with
  | reference h name number =>
    let scope ← ReaderT.read
    if scope.following.contains h.pos then Decode.stop (.selfContained name)
    else
      match scope.anchored.lookup number with
      | none => Decode.stop (.selfContained name)
      | some target =>
        withReader (fun scope => { scope with following := h.pos :: scope.following }) do
          Decode.visit
          read target
  | n => read n

/-- The tag of a node, as shown in reports. -/
def tag (n : Node) : Tag := n.head.tag

def misfit (n : Node) (into : String) : Decode Unit :=
  Decode.report (.misfit n.pos.line n.tag n.text into)

def reading (h : Head) (text : String) : Decode Reading :=
  match resolve h.tag text with
  | .ok r => pure r
  | .error m => Decode.stop (.mismatch m)

/-- Whether two keys of a mapping are the same: nodes of one kind with one text. -/
def sameKey : Node → Node → Bool
  | scalar _ a _, scalar _ b _ => a == b
  | reference _ a _, reference _ b _ => a == b
  | sequence .., sequence .. => true
  | mapping .., mapping .. => true
  | _, _ => false

/-- The keys that come again later in a mapping. -/
def repeatedKeys : List (Node × Node) → List Problem
  | [] => []
  | (k, _) :: rest =>
    (rest.filter fun e => sameKey k e.1).map
      (fun e => .repeatedKey e.1.pos.line e.1.text k.pos.line) ++ repeatedKeys rest

def isMergeKey : Node → Bool
  | scalar h "<<" _ => h.tag == .merge
  | _ => false

/-- Notes that a collection does not fit, or that a mapping has repeated keys. -/
def collectionMisfit (n : Node) (into : String) : Decode Unit :=
  match n with
  | mapping _ _ entries =>
    match repeatedKeys entries with
    | [] => n.misfit into
    | ps => ps.forM Decode.report
  | _ => n.misfit into

/-- Reads a text. A null leaves it absent. -/
def asText (into : String) (n : Node) : Decode (Option String) :=
  n.follow fun n => do
    match n with
    | scalar h text _ =>
      match ← reading h text with
      | .null => pure none
      | .binary content => pure (some content)
      | _ => pure (some text)
    | _ =>
      n.collectionMisfit into
      pure none

/-- The whole number that a reading stands for, in 64 bits. A float is cut, and raised to the least number.
-/
def wholeNumber? : Reading → Option Int
  | .int n => if n < (Number.wordBound : Int) then some n else none
  | .float x =>
    let n := x.truncate
    let bound : Int := Number.wordBound
    if n < -bound then some (-bound)
    else if n < bound then some n
    else if n = bound then some (-bound)
    else none
  | .infinity true => some (-(Number.wordBound : Int))
  | _ => none

/-- Reads a whole number. A null leaves it absent. -/
def asInt (into : String) (n : Node) : Decode (Option Int) :=
  n.follow fun n => do
    match n with
    | scalar h text _ =>
      let r ← reading h text
      if r = .null then pure none
      else
        match wholeNumber? r with
        | some i => pure (some i)
        | none =>
          n.misfit into
          pure none
    | _ =>
      n.collectionMisfit into
      pure none

/-- Reads the items of a list, without those that give nothing. A null is an empty list, anything else no
list. -/
def asList {α : Type} (into : String) (item : Node → Decode (Option α)) (n : Node) :
    Decode (Option (List α)) :=
  n.follow fun n => do
    match n with
    | sequence _ _ items =>
      let xs ← items.mapM item
      pure (some (xs.filterMap id))
    | scalar h text _ =>
      let r ← reading h text
      if r = .null then pure (some [])
      else
        n.misfit into
        pure none
    | _ =>
      n.collectionMisfit into
      pure none

/-- Leaves a node as it is. -/
def asNode (n : Node) : Decode (Option Node) := do
  Decode.visit
  pure (some n)

end Node

/-! ## Records -/

/-- A field of a record: its key, and how its node is read into the record. -/
structure RecordField (σ : Type) where
  key : String
  read : Node → σ → Decode σ

namespace RecordField

def text {σ : Type} (key : String) (set : String → σ → σ) : RecordField σ where
  key := key
  read n r := do
    match ← n.asText "string" with
    | some s => pure (set s r)
    | none => pure r

def int {σ : Type} (key : String) (set : Int → σ → σ) : RecordField σ where
  key := key
  read n r := do
    match ← n.asInt "int" with
    | some i => pure (set i r)
    | none => pure r

def node {σ : Type} (key : String) (set : Node → σ → σ) : RecordField σ where
  key := key
  read n r := do
    match ← n.asNode with
    | some n => pure (set n r)
    | none => pure r

/-- A field that is a list, whose type is shown as `into`. -/
def list {σ α : Type} (key into : String) (item : Node → Decode (Option α))
    (set : List α → σ → σ) : RecordField σ where
  key := key
  read n r := do
    match ← n.asList into item with
    | some xs => pure (set xs r)
    | none => pure r

end RecordField

/-- A record that is being read, and the fields that were given, if it takes over fields of other mappings. -/
structure Partial (σ : Type) where
  record : σ
  given : Option (List String) := none

/-- Reads the entries of a mapping into a record, but for fields given before. `done` are those that this
mapping gave. -/
def readEntries {σ : Type} (record : String) (fields : List (RecordField σ)) (done : List String) :
    List (Node × Node) → Partial σ → Decode (Partial σ)
  | [], p => pure p
  | (k, v) :: rest, p => do
    if k.isMergeKey then readEntries record fields done rest p
    else
      match ← k.asText "string" with
      | none => readEntries record fields done rest p
      | some key =>
        if p.given.any (·.contains key) then readEntries record fields done rest p
        else
          let p := { p with given := p.given.map (key :: ·) }
          match fields.find? (·.key == key) with
          | none => readEntries record fields done rest p
          | some field =>
            if done.contains key then
              Decode.report (.repeatedField k.pos.line key record)
              readEntries record fields done rest p
            else
              let r ← field.read v p.record
              readEntries record fields (key :: done) rest { p with record := r }

/-- The keys of a mapping, which no mapping that it takes over gives again. -/
def keysOf (entries : List (Node × Node)) : Decode (List String) := do
  let keys ← entries.mapM fun (k, _) => k.follow fun k => do
    match k with
    | .scalar h text _ =>
      match ← Node.reading h text with
      | .null => pure none
      | .binary content => pure (some content)
      | _ => pure (some text)
    | _ => pure none
  pure (keys.filterMap id)

mutual

/-- Reads a mapping into a record: its own entries, then the mappings of its last merge key. With repeated
keys it gives no fields. -/
def readMapping {σ : Type} (record : String) (fields : List (RecordField σ)) :
    Nat → List (Node × Node) → Partial σ → Decode (Partial σ)
  | 0, _, p => pure p
  | fuel + 1, entries, p => do
    match Node.repeatedKeys entries with
    | [] =>
      let p ← readEntries record fields [] entries p
      match (entries.filter (·.1.isMergeKey)).getLast? with
      | none => pure p
      | some (_, merged) =>
        match p.given with
        | some _ => readMerged record fields fuel (mergedNodes merged) p
        | none =>
          let given ← keysOf entries
          let q ← readMerged record fields fuel (mergedNodes merged) { p with given := some given }
          pure { p with record := q.record }
    | ps =>
      ps.forM Decode.report
      pure p
where
  /-- The nodes that a merge key takes over: the value, or its items. -/
  mergedNodes : Node → List Node
    | .sequence _ _ items => items
    | n => [n]

/-- Reads the mappings that are taken over. Anything else is a failure. -/
def readMerged {σ : Type} (record : String) (fields : List (RecordField σ)) :
    Nat → List Node → Partial σ → Decode (Partial σ)
  | 0, _, p => pure p
  | _, [], p => pure p
  | fuel + 1, n :: rest, p => do
    let scope ← ReaderT.read
    let target := match n with
      | .reference _ _ number => (scope.anchored.lookup number).getD n
      | n => n
    match target with
    | .mapping _ _ entries =>
      let p ← n.follow fun _ => readMapping record fields fuel entries p
      readMerged record fields fuel rest p
    | _ => Decode.stop .badMerge

end

/-- How deep merge keys are followed. A repeated alias ends reading before. -/
def mergeDepth : Nat := 1000000000

/-- Reads a record, whose type is shown as `record`. A null leaves it absent. -/
def Node.asRecord {σ : Type} (record : String) (fields : List (RecordField σ)) (initial : σ) (n : Node) :
    Decode (Option σ) :=
  n.follow fun n => do
    match n with
    | .mapping _ _ entries =>
      match Node.repeatedKeys entries with
      | [] =>
        let p ← readMapping record fields mergeDepth entries { record := initial }
        pure (some p.record)
      | ps =>
        ps.forM Decode.report
        pure none
    | .scalar h text _ =>
      let r ← Node.reading h text
      if r = .null then pure none
      else
        n.misfit record
        pure none
    | _ =>
      n.misfit record
      pure none

end FlowCompiler.Document
