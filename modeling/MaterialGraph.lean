import MaterialGraph.Text.Line
import MaterialGraph.Table
import MaterialGraph.Json.Parser
import MaterialGraph.Json.Printer
import MaterialGraph.Json.Reader
import MaterialGraph.NodeType.Description
import MaterialGraph.Graph.Reach
import MaterialGraph.Config
import MaterialGraph.Material
import MaterialGraph.Document.Text
import MaterialGraph.PassGraph.Load
import MaterialGraph.Mapping.Assign
import MaterialGraph.Body.Accessor
import MaterialGraph.Body.Emit
import MaterialGraph.Body.Library
import MaterialGraph.Assembly.Assemble
import MaterialGraph.Cooked.Format
import MaterialGraph.Shader.Cache
import MaterialGraph.CommandLine.Run
import MaterialGraph.Main
import MaterialGraph.Proofs.Body.Meaning
import MaterialGraph.Proofs.PassGraph.Load
import MaterialGraph.Proofs.Mapping.Streams
import MaterialGraph.Proofs.Cooked.MappingBlock
import MaterialGraph.Proofs.Cooked.Format
import MaterialGraph.Proofs.Graph.Edit
import MaterialGraph.Proofs.PassGraph.Reached
import MaterialGraph.Proofs.Assembly.Registers
import MaterialGraph.Proofs.Shader.Declared
import MaterialGraph.Proofs.Shader.History
import MaterialGraph.Proofs.Mapping.WellFormed
import MaterialGraph.Proofs.Shader.Cooking
import MaterialGraph.Proofs.Shader.Library
import MaterialGraph.Proofs.Shader.Renaming
import MaterialGraph.Proofs.Shader.Variants
import MaterialGraph.Proofs.Body.Assignment
import MaterialGraph.Proofs.PassGraph.Failures
import MaterialGraph.Proofs.Shader.Failures
import MaterialGraph.Proofs.FileTree
import MaterialGraph.Proofs.Shader.Reads
import MaterialGraph.Proofs.CommandLine.Job
import MaterialGraph.Proofs.CommandLine.Outputs
import MaterialGraph.Proofs.Body.Recursion
import MaterialGraph.Proofs.Body.Outcome
import MaterialGraph.Proofs.Body.Order
import MaterialGraph.Proofs.Mapping.Classes
import MaterialGraph.Proofs.Mapping.Capacity
import MaterialGraph.Proofs.Mapping.Monotone
import MaterialGraph.Proofs.Assembly.Shape
import MaterialGraph.Proofs.Assembly.Artifacts
import MaterialGraph.Proofs.Assembly.Retention
import MaterialGraph.Proofs.BasicType
import MaterialGraph.Proofs.NodeType.Description
import MaterialGraph.Proofs.PassGraph.Samplers
import MaterialGraph.Proofs.Cooked.Truncation
import MaterialGraph.Proofs.Cooked.Canonical
import MaterialGraph.Proofs.Mapping.Preview
import MaterialGraph.Proofs.Body.Preview
import MaterialGraph.Proofs.Json.Token
import MaterialGraph.Proofs.Json.Parser
import MaterialGraph.Proofs.Json.Reader
import MaterialGraph.Proofs.Material
import MaterialGraph.Proofs.Document.Text
import MaterialGraph.Proofs.CommandLine.Options
import MaterialGraph.Proofs.Assembly.Macros
import MaterialGraph.Proofs.Body.Pins
import MaterialGraph.Proofs.Body.Text
import MaterialGraph.Proofs.PassGraph.Balance
