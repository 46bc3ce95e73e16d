import FlowCompiler.Source.File

/-!
# Packages of generated programs

Generated programs use the package that runs flows and a few packages of the standard library.
-/

namespace FlowCompiler.Source

def flowPath : String := "github.com/ravi-parthasarathy/fbpgen/pkg/flow"

/-- The packages that generated programs use on their own account. -/
def fixedImports : List Import := [
  ⟨"flow", flowPath, true⟩, ⟨"fmt", "fmt", false⟩, ⟨"math", "math", false⟩, ⟨"sync", "sync", false⟩]

/-- A member of the package that runs flows. -/
def flow (member : String) : Expr := .imported flowPath member

def math (member : String) : Expr := .imported "math" member

def nodeTypePointer : Expr := .unary "*" (flow "NodeType")

def errorType : Expr := .name "error"

end FlowCompiler.Source
