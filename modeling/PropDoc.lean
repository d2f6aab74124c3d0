import PropDoc.Main
import PropDoc.Proofs.Project.TypeLookup
import PropDoc.Proofs.Table
import PropDoc.Proofs.Documentation.Outcome
import PropDoc.Proofs.Comment.LineGrammar
import PropDoc.Proofs.Comment.Grammar
import PropDoc.Proofs.Comment.Escape
import PropDoc.Proofs.Comment.Paragraph
import PropDoc.Proofs.Comment.RoundTrip
import PropDoc.Proofs.Documentation.Strictness
import PropDoc.Proofs.Documentation.Json
import PropDoc.Proofs.Path
import PropDoc.Proofs.Project.Resolution
import PropDoc.Proofs.FileSystem.Location
import PropDoc.Proofs.Project.Links
import PropDoc.Proofs.Project.Closure
import PropDoc.Proofs.Documentation.Locality
import PropDoc.Proofs.Comment.TagExtension
import PropDoc.Proofs.Documentation.Order
import PropDoc.Proofs.Documentation.Tags
import PropDoc.Proofs.Path.Relative
import PropDoc.Proofs.Documentation.Keys
import PropDoc.Proofs.FileSystem.Writing
import PropDoc.Proofs.Command.Generate
import PropDoc.Proofs.Path.Bearing
import PropDoc.Proofs.Project.Bearing
import PropDoc.Proofs.Documentation.Support
import PropDoc.Proofs.Command.Trace
import PropDoc.Proofs.Props.Description
import PropDoc.Proofs.Props.Leading
import PropDoc.Proofs.Signature.Alike
import PropDoc.Proofs.Props.Parameter
import PropDoc.Proofs.Signature.Place
import PropDoc.Proofs.Signature.Flat
import PropDoc.Proofs.Signature.Parentheses
import PropDoc.Proofs.Syntax.Preorder
import PropDoc.Proofs.SourceFile.Issue
import PropDoc.Proofs.SourceFile.Anchor
import PropDoc.Proofs.SourceFile.Extension
import PropDoc.Proofs.Props.Uncommented
import PropDoc.Proofs.Props.Reference
import PropDoc.Proofs.Signature.Form
import PropDoc.Proofs.Signature.Text
import PropDoc.Proofs.Documentation.Extension
import PropDoc.Proofs.Path.Order
import PropDoc.Proofs.FileSystem.Walk
import PropDoc.Proofs.Project.Discovery
import PropDoc.Proofs.SourceFile.TypeDeclaration
import PropDoc.Proofs.SourceFile.Function
import PropDoc.Proofs.Comment.Mark
import PropDoc.Proofs.Comment.NamedBlock
import PropDoc.Proofs.Comment.Rescan
import PropDoc.Proofs.Comment.Code
import PropDoc.Proofs.Comment.LineEnd
import PropDoc.Proofs.Props.Line
import PropDoc.Proofs.Config.TagName
import PropDoc.Proofs.Comment.Run
import PropDoc.Proofs.Comment.Content
