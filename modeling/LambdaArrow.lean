import LambdaArrow.Text.Basic
import LambdaArrow.Text.Blank
import LambdaArrow.Text.Line
import LambdaArrow.Text.Quoted
import LambdaArrow.Text.Plain
import LambdaArrow.Balance
import LambdaArrow.Error
import LambdaArrow.Token
import LambdaArrow.Term
import LambdaArrow.Term.Arrow
import LambdaArrow.Table
import LambdaArrow.Definitions
import LambdaArrow.Literal
import LambdaArrow.Phrase
import LambdaArrow.Phrase.Reader
import LambdaArrow.Term.Parser
import LambdaArrow.Directive
import LambdaArrow.CodeLine
import LambdaArrow.Date
import LambdaArrow.Program
import LambdaArrow.Log
import LambdaArrow.Log.Format
import LambdaArrow.Compile
import LambdaArrow.Session
import LambdaArrow.Command.Invocation
import LambdaArrow.Command.Path
import LambdaArrow.Command.Fault
import LambdaArrow.Command.Action
import LambdaArrow.Sandbox.FileTree
import LambdaArrow.Sandbox.Machine
import LambdaArrow.Sandbox.Tool
import LambdaArrow.Sandbox.Tool.Escape
import LambdaArrow.Sandbox.Tool.Echo
import LambdaArrow.Sandbox.Tool.Name
import LambdaArrow.Sandbox.Tool.Cat
import LambdaArrow.Sandbox.Tool.Printf
import LambdaArrow.Sandbox.Tool.Test
import LambdaArrow.Sandbox.Formula
import LambdaArrow.Sandbox.Script
import LambdaArrow.Sandbox.Script.Lexeme
import LambdaArrow.Sandbox.Script.Parser
import LambdaArrow.Sandbox.Shell
import LambdaArrow.Sandbox.Shell.Field
import LambdaArrow.Sandbox.Shell.Builtin
import LambdaArrow.Sandbox.Shell.Stream
import LambdaArrow.Sandbox.Shell.Call
import LambdaArrow.Sandbox.Shell.Run
import LambdaArrow.Sandbox.Launch
import LambdaArrow.Main
import LambdaArrow.Proofs.Level
import LambdaArrow.Proofs.Splitting
import LambdaArrow.Proofs.Trimming
import LambdaArrow.Proofs.Literals
import LambdaArrow.Proofs.Reader
import LambdaArrow.Proofs.Surface
import LambdaArrow.Proofs.Arrows
import LambdaArrow.Proofs.Keys
import LambdaArrow.Proofs.Lookup
import LambdaArrow.Proofs.Run
import LambdaArrow.Proofs.Scope
import LambdaArrow.Proofs.Cutting
import LambdaArrow.Proofs.Directives
import LambdaArrow.Proofs.Lines
import LambdaArrow.Proofs.Writing
import LambdaArrow.Proofs.Quoting
import LambdaArrow.Proofs.Indentation
import LambdaArrow.Proofs.Pass
import LambdaArrow.Proofs.Joining
import LambdaArrow.Proofs.Causes
import LambdaArrow.Proofs.Failing
import LambdaArrow.Proofs.History
import LambdaArrow.Proofs.Repeating
import LambdaArrow.Proofs.Pieces
import LambdaArrow.Proofs.Words
import LambdaArrow.Proofs.Parentheses
import LambdaArrow.Proofs.Wrapping
import LambdaArrow.Proofs.OneLine
import LambdaArrow.Proofs.Layout
import LambdaArrow.Proofs.Files
import LambdaArrow.Proofs.Effects
import LambdaArrow.Proofs.Partners
import LambdaArrow.Proofs.Segments
import LambdaArrow.Proofs.Agreement
import LambdaArrow.Proofs.Application
import LambdaArrow.Proofs.Names
import LambdaArrow.Proofs.Comments
import LambdaArrow.Proofs.Spellings
import LambdaArrow.Proofs.Seams
import LambdaArrow.Proofs.Calls
import LambdaArrow.Proofs.Nodes
import LambdaArrow.Proofs.LineEnds
