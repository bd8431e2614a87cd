import ScriptBridge.Number.Layout
import ScriptBridge.Number.Reading
import ScriptBridge.Text.Word
import ScriptBridge.Data.Tree
import ScriptBridge.AiScript.Node
import ScriptBridge.AiScript.Listing
import ScriptBridge.AiScript.Token
import ScriptBridge.AiScript.Printer
import ScriptBridge.AiScript.Grammar
import ScriptBridge.TypeScript.Token.Lexer
import ScriptBridge.TypeScript.Numeral
import ScriptBridge.TypeScript.Node
import ScriptBridge.TypeScript.Grammar.TypeExpression
import ScriptBridge.TypeScript.Grammar
import ScriptBridge.TypeScript.Listing
import ScriptBridge.TypeScript.Node.Fold
import ScriptBridge.Binding.Declare
import ScriptBridge.Binding.Binder
import ScriptBridge.Binding.Ambient
import ScriptBridge.Binding.Program
import ScriptBridge.Typing.Type
import ScriptBridge.Typing.Text
import ScriptBridge.Typing.Union
import ScriptBridge.Typing.Memory
import ScriptBridge.Typing.Access
import ScriptBridge.Typing.Written
import ScriptBridge.Typing.Inference
import ScriptBridge.Typing.Oracle
import ScriptBridge.Text.Split
import ScriptBridge.Project.Path
import ScriptBridge.Project.FileTree
import ScriptBridge.Project.Event
import ScriptBridge.Project.ModuleFault
import ScriptBridge.Project.Session
import ScriptBridge.Conversion.Fault
import ScriptBridge.Conversion.Context
import ScriptBridge.Conversion.Capability
import ScriptBridge.Conversion.Pattern
import ScriptBridge.Conversion.TypeGate
import ScriptBridge.Conversion.Function
import ScriptBridge.Conversion.Literal
import ScriptBridge.Conversion.Access
import ScriptBridge.Conversion.Operator
import ScriptBridge.Conversion.Variable
import ScriptBridge.Conversion.Jump
import ScriptBridge.Conversion.Choice
import ScriptBridge.Conversion.Loop
import ScriptBridge.Conversion.Statement
import ScriptBridge.Conversion.Export
import ScriptBridge.Conversion.Module
import ScriptBridge.Project.Compile
import ScriptBridge.Bundle.RenameTable
import ScriptBridge.Bundle.SourceMap
import ScriptBridge.Bundle.Edit
import ScriptBridge.Bundle.Flatten
import ScriptBridge.Bundle.ModuleRecord
import ScriptBridge.Bundle.Bundle
import ScriptBridge.Command.Options
import ScriptBridge.Command.Run
import ScriptBridge.Main
import ScriptBridge.Proofs.Bundle.Names
import ScriptBridge.Proofs.Conversion.Jumps
import ScriptBridge.Proofs.Bundle.Discovery
import ScriptBridge.Proofs.AiScript.RoundTrip
import ScriptBridge.Proofs.AiScript.Endings
import ScriptBridge.Proofs.AiScript.Nesting
import ScriptBridge.Proofs.Conversion.ReadBack
import ScriptBridge.Proofs.Conversion.Gates
import ScriptBridge.Proofs.Bundle.Single
import ScriptBridge.Proofs.Conversion.AnyOrder
import ScriptBridge.Proofs.Typing.QueryOrder
import ScriptBridge.Proofs.Conversion.LoopTrace
import ScriptBridge.Proofs.Conversion.CaseBody
import ScriptBridge.Proofs.Project.Order
import ScriptBridge.Proofs.Project.ExportTables
import ScriptBridge.Proofs.Bundle.Ambient
import ScriptBridge.Proofs.Conversion.GeneratedScope
import ScriptBridge.Proofs.Bundle.Lines
import ScriptBridge.Proofs.Conversion.DeclaredPattern
import ScriptBridge.Proofs.Conversion.LoopCapture
import ScriptBridge.Proofs.TypeScript.Speculation
import ScriptBridge.Proofs.TypeScript.TokenTiling
import ScriptBridge.Proofs.TypeScript.Precedence
import ScriptBridge.Proofs.TypeScript.Regions
import ScriptBridge.Proofs.TypeScript.Settling
import ScriptBridge.Proofs.Typing.UnionLaws
import ScriptBridge.Proofs.Typing.Termination
