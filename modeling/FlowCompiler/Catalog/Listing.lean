import FlowCompiler.Catalog.Basic
import FlowCompiler.Text.Blank
import FlowCompiler.Text.Column

/-!
# Listing a catalog

For each type its name and symbol, its ports and its options, in columns.
-/

namespace FlowCompiler

/-- How words of a listing are set off. -/
structure Paint where
  heading : String → String := id
  column : String → String := id

def Paint.plain : Paint := {}

/-- Colours of a terminal: bold green headings and yellow column words. -/
def Paint.terminal : Paint where
  heading s := "\x1b[32;1m" ++ s ++ "\x1b[0;22m"
  column s := "\x1b[33m" ++ s ++ "\x1b[0m"

namespace Descriptor

/-- A line of a listing: two padded columns and the rest. -/
def listingLine (a b rest : String) : String :=
  "    " ++ Text.padRight 16 a ++ " " ++ Text.padRight 18 b ++ " " ++ rest ++ "\n"

def portLine (p : Port) : String :=
  let name := if p.isArray then s!"{p.name}[{p.size}]" else p.name
  listingLine name (Text.trim p.dataType) s!"@{p.base}"

/-- The ports of one direction under their word, if there are any. -/
def portLines (paint : Paint) (word : String) (ports : List Port) : String :=
  if ports.isEmpty then "" else "  " ++ paint.column word ++ "\n" ++ String.join (ports.map portLine)

def optionLine (o : OptionSpec) : String :=
  listingLine o.name o.dataType (match o.fallback with
    | some v => v.str
    | none => "-")

def listing (paint : Paint) (d : Descriptor) : String :=
  paint.heading d.name ++ "  " ++ d.symbol ++ "\n" ++ portLines paint "in" d.inputs ++
    portLines paint "out" d.outputs ++
    if d.options.isEmpty then ""
    else
      "  " ++ paint.column "options" ++ "  " ++ d.optionsSymbol ++ "\n" ++
        String.join (d.options.map optionLine)

end Descriptor

/-- The listing of all types, with an empty line between two of them. -/
def Catalog.listing (paint : Paint) (c : Catalog) : String :=
  "\n".intercalate (c.types.map (Descriptor.listing paint))

end FlowCompiler
