/-!
# Paths

Slash-separated paths as texts. `clean` gives the shortest path with the same meaning, without empty parts
and `.`, and with each `..` taken together with the part before it.
-/

namespace FlowCompiler.Path

def parts (path : String) : List String :=
  (path.toList.splitOn '/').map String.ofList

def isAbsolute (path : String) : Bool := path.toList.head? == some '/'

/-- Adds a part to the parts kept so far, last one first. -/
def step (rooted : Bool) (kept : List String) (part : String) : List String :=
  if part = "" ∨ part = "." then kept
  else if part = ".." then
    match kept with
    | [] => if rooted then [] else [".."]
    | last :: rest => if last = ".." then ".." :: kept else rest
  else part :: kept

def cleanParts (path : String) : List String :=
  ((parts path).foldl (step (isAbsolute path)) []).reverse

/-- The shortest path with the same meaning. -/
def clean (path : String) : String :=
  let body := "/".intercalate (cleanParts path)
  if isAbsolute path then "/" ++ body
  else if body = "" then "."
  else body

/-- Joins two paths and cleans the result. An empty one is left out. -/
def join (dir name : String) : String :=
  if dir = "" ∧ name = "" then ""
  else if dir = "" then clean name
  else if name = "" then clean dir
  else clean (dir ++ "/" ++ name)

/-- The path as seen from the root, for a given working directory. -/
def absolute (working path : String) : String :=
  if isAbsolute path then clean path else join working path

def base (path : String) : String :=
  if path = "" then "."
  else
    match path.toList.reverse.dropWhile (· == '/') with
    | [] => "/"
    | cs => String.ofList (cs.takeWhile (· != '/')).reverse

/-- The cleaned path of everything before the last part. -/
def dir (path : String) : String :=
  clean (String.ofList (path.toList.reverse.dropWhile (· != '/')).reverse)

/-- The end of the last part from its last dot on. -/
def extension (path : String) : String :=
  let last := path.toList.reverse.takeWhile (· != '/')
  if last.contains '.' then String.ofList ('.' :: (last.takeWhile (· != '.')).reverse) else ""

def stem (path : String) : String :=
  let b := base path
  String.ofList (b.toList.take (b.length - (extension b).length))

end FlowCompiler.Path
