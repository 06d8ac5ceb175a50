import Courier.Annotate.Arguments
import Courier.Annotate.Expansion
import Courier.Annotate.Subject
import Courier.Build
import Courier.Code.Format
import Courier.Code.Format.Block
import Courier.Code.Format.Expr
import Courier.Code.Format.Item
import Courier.Code.Format.Path
import Courier.Code.Format.Pattern
import Courier.Code.Format.Piece
import Courier.Code.Format.Raw
import Courier.Code.Format.Setting
import Courier.Code.Format.Stmt
import Courier.Code.Grammar
import Courier.Code.Grammar.Expr
import Courier.Code.Grammar.Item
import Courier.Code.Grammar.Operator
import Courier.Code.Grammar.Path
import Courier.Code.Grammar.Pattern
import Courier.Code.Grammar.Stmt
import Courier.Code.Grammar.Type
import Courier.Code.Layout
import Courier.Code.Lexer
import Courier.Code.Literal
import Courier.Code.Parser
import Courier.Code.Token
import Courier.Code.Tree
import Courier.Demo
import Courier.Emit.Conversion
import Courier.Emit.Item
import Courier.Emit.Pair
import Courier.Emit.Run
import Courier.Emit.Value
import Courier.Files.Path
import Courier.Files.Store
import Courier.Generate
import Courier.Main
import Courier.Model.Argument
import Courier.Model.Classify
import Courier.Model.Declaration
import Courier.Model.Descriptor
import Courier.Model.Document
import Courier.Model.Error
import Courier.Model.Extract
import Courier.Model.Resolve
import Courier.Model.Trace
import Courier.Model.TypeShape
import Courier.Proofs.Build
import Courier.Proofs.Code.Blocks
import Courier.Proofs.Code.Depth
import Courier.Proofs.Code.Generic
import Courier.Proofs.Code.Items
import Courier.Proofs.Code.Letters
import Courier.Proofs.Code.Reads
import Courier.Proofs.Code.Faithful
import Courier.Proofs.Code.Names
import Courier.Proofs.Code.Progress
import Courier.Proofs.Code.Suffix
import Courier.Proofs.Code.TypeTrees
import Courier.Proofs.Emit.Conversions
import Courier.Proofs.Emit.Expressions
import Courier.Proofs.Emit.Items
import Courier.Proofs.Emit.Linking
import Courier.Proofs.Emit.TransferTypes
import Courier.Proofs.Emit.Typing
import Courier.Proofs.Generation.Header
import Courier.Proofs.Generation.Independence
import Courier.Proofs.Generation.Pairs
import Courier.Proofs.Generation.References
import Courier.Proofs.Generation.Strictness
import Courier.Proofs.Generation.TypeNames
import Courier.Proofs.Model.Classification
import Courier.Proofs.Model.Depth
import Courier.Proofs.Model.Elements
import Courier.Proofs.Model.Grammar
import Courier.Proofs.Model.Reading
import Courier.Proofs.Model.Shape
import Courier.Proofs.Model.Writing
import Courier.Proofs.Result
import Courier.Proofs.Xml.Tags
import Courier.Proofs.Xml.Tree
import Courier.Proofs.Xml.Writing
import Courier.Sample
import Courier.Text.Blank
import Courier.Text.Identifier
import Courier.Text.Printable
import Courier.Text.Quoted
import Courier.Text.Ranges
import Courier.Xml.Attribute
import Courier.Xml.Event
import Courier.Xml.Fault
import Courier.Xml.Reference
import Courier.Proofs.Generation.Files
import Courier.Proofs.Annotate.Arguments
import Courier.Proofs.Annotate.Struct
import Courier.Proofs.Model.Extraction
import Courier.Proofs.Code.Spelling
import Courier.Proofs.Generation.Identifiers
import Courier.Proofs.Code.Outline
import Courier.Proofs.Code.Enclosed
import Courier.Proofs.Emit.Outline
import Courier.Proofs.Generation.Outlines
import Courier.Proofs.Xml.Cut
import Courier.Proofs.Model.Truncation
import Courier.Proofs.Model.Attributes
import Courier.Proofs.Xml.Body
import Courier.Proofs.Model.Bodies
import Courier.Proofs.Annotate.Self
import Courier.Proofs.Generation.Uses
import Courier.Proofs.Emit.Stencil
import Courier.Proofs.Model.Scope
import Courier.Proofs.Xml.Append
import Courier.Proofs.Model.Forms
import Courier.Proofs.Emit.Checks
import Courier.Proofs.Generation.Precedence
import Courier.Proofs.Code.Structs
import Courier.Proofs.Annotate.Outcome
import Courier.Proofs.Text.Quoted
import Courier.Proofs.Code.Literals
import Courier.Proofs.Model.Arguments
