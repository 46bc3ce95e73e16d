import FlowCompiler.Main
import FlowCompiler.Live.Run
import FlowCompiler.Proofs.Startup.Accepted
import FlowCompiler.Proofs.Options.Compiled
import FlowCompiler.Proofs.Live.Lifecycle
import FlowCompiler.Proofs.Graph.Outline
import FlowCompiler.Proofs.Graph.LineEnds
import FlowCompiler.Proofs.Compile.Preorder
import FlowCompiler.Proofs.Storage.Replacement
import FlowCompiler.Proofs.Program.ComposedTypes
import FlowCompiler.Proofs.Program.TypeVariables
import FlowCompiler.Proofs.Catalog.Overlaps
import FlowCompiler.Proofs.Presets.Objects
import FlowCompiler.Proofs.Options.Positional
import FlowCompiler.Proofs.Graph.BreadthFirst
import FlowCompiler.Proofs.Catalog.Grammar
import FlowCompiler.Proofs.Options.Integers
import FlowCompiler.Proofs.Graph.Totality
