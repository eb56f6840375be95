import LuaDocs.Config.Json
import LuaDocs.Extension
import LuaDocs.Index.Json
import LuaDocs.Main
import LuaDocs.Node.Json
import LuaDocs.Object.Json
import LuaDocs.Proofs.Analyzer.Bases
import LuaDocs.Proofs.Analyzer.Constructors
import LuaDocs.Proofs.Analyzer.Locations
import LuaDocs.Proofs.Analyzer.ModuleOrder
import LuaDocs.Proofs.Apidoc.Completion
import LuaDocs.Proofs.Auto.Placement
import LuaDocs.Proofs.Bracket.Arrows
import LuaDocs.Proofs.Comment.Alias
import LuaDocs.Proofs.Comment.Options
import LuaDocs.Proofs.Comment.Text
import LuaDocs.Proofs.Config.Rereading
import LuaDocs.Proofs.Config.Versions
import LuaDocs.Proofs.Document.FullNames
import LuaDocs.Proofs.Document.Ownership
import LuaDocs.Proofs.Index.Clearing
import LuaDocs.Proofs.Index.Incremental
import LuaDocs.Proofs.Index.Parallel
import LuaDocs.Proofs.InheritedMembers.Rendering
import LuaDocs.Proofs.Members.Monotone
import LuaDocs.Proofs.Members.Source
import LuaDocs.Proofs.Name.Parents
import LuaDocs.Proofs.Object.Bases
import LuaDocs.Proofs.Project.Builds
import LuaDocs.Proofs.Signature.Returns
import LuaDocs.Proofs.Signature.Variables
import LuaDocs.Proofs.Signature.Wrapping
import LuaDocs.Proofs.TypeExpr.Rereading
import LuaDocs.Server.Run
