import FlowCompiler.Catalog.Descriptor
import FlowCompiler.Text.Blank
import FlowCompiler.Text.Quoted

/-!
# Composed ports

A composed node joins the packets of several ports into one packet, or splits such a packet again. Its
declaration lists the simple ports as `NAME(type)` between bars; the composed port carries a type made of
theirs.
-/

namespace FlowCompiler

/-- Why the ports of a composed node are refused. -/
inductive ComposedFault where
  | malformed (field : String)
  | untyped (name : String)
  | repeated (name : String)
  | tooFew
deriving DecidableEq, Repr

def ComposedFault.message : ComposedFault → String
  | malformed field =>
    "couldn't parse composed port " ++ Text.quote field ++ ", expected 'NAME(type)'"
  | untyped name => "composed port " ++ Text.quote name ++ " has no type"
  | repeated name => "composed port " ++ Text.quote name ++ " declared twice"
  | tooFew => "a composed node must have at least two ports"

namespace Composed

/-- Cuts `NAME(type)` into its name and its type, both trimmed. -/
def splitField (field : List Char) : Option (String × String) :=
  let before := field.takeWhile (· != '(')
  match before, field.drop before.length, field.getLast? with
  | _ :: _, _ :: after, some ')' =>
    some (String.ofList (Text.trimChars before), String.ofList (Text.trimChars after.dropLast))
  | _, _, _ => none

/-- Reads the fields one after the other; `done` are the ports before them. -/
def readFields (done : List Port) : List (List Char) → Except ComposedFault (List Port)
  | [] => .ok done
  | field :: rest =>
    let trimmed := Text.trimChars field
    match splitField trimmed with
    | none => .error (.malformed (String.ofList trimmed))
    | some (name, type) =>
      if type = "" then .error (.untyped name)
      else if done.any (·.name == name) then .error (.repeated name)
      else readFields (done ++ [{ name := name, dataType := type, base := done.length }]) rest

def simplePorts (contents : String) : Except ComposedFault (List Port) :=
  match readFields [] (contents.toList.splitOn '|') with
  | .error f => .error f
  | .ok ports => if ports.length < 2 then .error .tooFew else .ok ports

/-- The data type of a packet that is made of packets of the given types. -/
def packetType (types : List String) : String := "composed:" ++ ",".intercalate types

def dataType (ports : List Port) : String := packetType (ports.map (·.dataType))

/-- The inputs and outputs of a composed node. A splitter has the composed port as its input, a joiner as
its output. -/
def ports (splitter : Bool) (contents : String) : Except ComposedFault (List Port × List Port) :=
  match simplePorts contents with
  | .error f => .error f
  | .ok simple =>
    if splitter then .ok ([{ name := "IN", dataType := dataType simple }], simple)
    else .ok (simple, [{ name := "OUT", dataType := dataType simple }])

end Composed

end FlowCompiler
