import SourceTree.Main
import SourceTree.Outline.OfTree
import SourceTree.Outline.ToByteTree
import SourceTree.Outline.ToJson
import SourceTree.Tree.Pruning
import SourceTree.Proofs.ByteTree.Document
import SourceTree.Proofs.Outline.References
import SourceTree.Proofs.Session.Taking
import SourceTree.Proofs.Text.Utf8
import SourceTree.Proofs.Tree.Alike
import SourceTree.Proofs.Outline.Abridged
import SourceTree.Proofs.Session.Incremental
import SourceTree.Proofs.Session.Resolution
import SourceTree.Json.Writer
import SourceTree.Proofs.Json.Scalar
import SourceTree.Proofs.Json.Document
import SourceTree.Proofs.Outline.Written
import SourceTree.Proofs.Session.Formats
import SourceTree.Proofs.Session.Failing
import SourceTree.Proofs.Session.Runs
import SourceTree.Proofs.Session.LastCompleted
import SourceTree.Proofs.Outline.Faults
import SourceTree.Proofs.Session.Closure
import SourceTree.Proofs.Session.Matching
import SourceTree.Proofs.Session.Leftovers
import SourceTree.Proofs.Command.Steps
import SourceTree.Proofs.Command.Reading
import SourceTree.Proofs.Keyed
import SourceTree.Proofs.Tree.Places
import SourceTree.Proofs.Tree.Shape
import SourceTree.Proofs.Tree.Missing
import SourceTree.Proofs.Classification.Paths
import SourceTree.Proofs.Session.Serials
import SourceTree.Proofs.Session.Agreement
import SourceTree.Proofs.Classification.Sharing
import SourceTree.Proofs.Command.Priming
import SourceTree.Proofs.Markup.Segments
import SourceTree.Proofs.Markup.Structure
import SourceTree.Proofs.Outline.Grammar
import SourceTree.Proofs.System.Path
import SourceTree.Proofs.Command.SearchPath
import SourceTree.Proofs.System.Files
import SourceTree.Proofs.System.Contents
import SourceTree.Proofs.Command.Related
import SourceTree.Proofs.Command.Streams
import SourceTree.Proofs.Command.Footprint
import SourceTree.Proofs.Command.Refusal
import SourceTree.Proofs.Command.Rewriting
import SourceTree.Proofs.Command.Independence
import SourceTree.Proofs.ByteTree.Extent
import SourceTree.Proofs.Command.Grammar
import SourceTree.Proofs.Command.Composition
import SourceTree.Proofs.Command.Selection
import SourceTree.Proofs.Command.Verbosity
import SourceTree.Proofs.Json.Integers
import SourceTree.Proofs.Outline.Sound
import SourceTree.Proofs.Session.Inherited
import SourceTree.Proofs.Session.WrittenBack
import SourceTree.Proofs.Session.Kinds
import SourceTree.Proofs.Session.Identity
import SourceTree.Proofs.Markup.Skeleton
import SourceTree.Proofs.Tree.Trace
import SourceTree.Proofs.Outline.Recoded
import SourceTree.Proofs.Session.Recoded
import SourceTree.Proofs.Json.Rearranged
import SourceTree.Proofs.Outline.Rearranged
import SourceTree.Proofs.Session.Rearranged
import SourceTree.Proofs.Command.Compiling
import SourceTree.Proofs.Command.Composition
