import PixelEffects.Main
import PixelEffects.Proofs.Script.Limits
import PixelEffects.Proofs.Script.Nesting
import PixelEffects.Proofs.Script.LexicalScope
import PixelEffects.Proofs.Script.Addresses
import PixelEffects.Proofs.Effect.Parallel
import PixelEffects.Proofs.Package
import PixelEffects.Proofs.Effect.Preload
import PixelEffects.Proofs.Effect.AllOrNothing
import PixelEffects.Proofs.Script.Budget
import PixelEffects.Proofs.Script.Syntax.Grammar
import PixelEffects.Proofs.Script.Syntax.Precedence
import PixelEffects.Proofs.Script.Syntax.Takes
import PixelEffects.Proofs.Script.Syntax.Soundness
import PixelEffects.Proofs.Script.Syntax.Printing
import PixelEffects.Proofs.Script.Syntax.Reads
import PixelEffects.Proofs.Script.Syntax.Written
import PixelEffects.Proofs.Script.Syntax.Completeness
import PixelEffects.Proofs.Script.ChunkCache
import PixelEffects.Proofs.Effect.Uncached
import PixelEffects.Proofs.Effect.Client
import PixelEffects.Proofs.Script.Syntax.Heights
import PixelEffects.Proofs.Script.Syntax.Capped
import PixelEffects.Proofs.Script.Syntax.Agrees
import PixelEffects.Proofs.Script.Syntax.Bounds
import PixelEffects.Proofs.Script.Syntax.Depth
import PixelEffects.Proofs.Number.Numeral
import PixelEffects.Proofs.Number.Digits
import PixelEffects.Proofs.Script.Table
import PixelEffects.Proofs.Text.Growth
import PixelEffects.Proofs.Script.Library.Texts
import PixelEffects.Proofs.Script.Vocabulary
import PixelEffects.Proofs.Script.Vocabulary.Library
import PixelEffects.Proofs.Script.Vocabulary.Evaluation
import PixelEffects.Proofs.Script.Vocabulary.Host
import PixelEffects.Proofs.Script.Vocabulary.Style
import PixelEffects.Proofs.Script.TextLength
import PixelEffects.Proofs.Effect.Failure
import PixelEffects.Proofs.Chain
import PixelEffects.Proofs.Package.Containment
import PixelEffects.Proofs.Effect.Cycle
import PixelEffects.Proofs.Script.Reach
import PixelEffects.Proofs.Script.Graded
import PixelEffects.Proofs.Script.Syntax.LeastLevels
import PixelEffects.Proofs.Script.Syntax.ParsedReach
import PixelEffects.Proofs.Script.OwnNesting
import PixelEffects.Proofs.Script.SharedCache
import PixelEffects.Proofs.Script.HostValue.RoundTrip
import PixelEffects.Proofs.Script.HostValue.Size
import PixelEffects.Proofs.Text.Lines
import PixelEffects.Proofs.Chain.Format
import PixelEffects.Proofs.Package.Metadata
import PixelEffects.Proofs.Package.Lists
import PixelEffects.Proofs.Number.Equality
import PixelEffects.Proofs.Script.Key
import PixelEffects.Proofs.Script.Built
import PixelEffects.Proofs.Script.Built.Evaluation
import PixelEffects.Proofs.Script.Built.Host
import PixelEffects.Proofs.Number.Whole
import PixelEffects.Proofs.Script.Border
import PixelEffects.Proofs.Script.Library.Insert
import PixelEffects.Proofs.Script.Traversal
import PixelEffects.Proofs.Script.Traversal.Loop
import PixelEffects.Proofs.Script.Position
import PixelEffects.Proofs.Script.Position.Expressions
import PixelEffects.Proofs.Script.Position.Agreement
import PixelEffects.Proofs.Text.Repair
import PixelEffects.Proofs.Number.Truncate
import PixelEffects.Proofs.Script.Library.Argument
import PixelEffects.Proofs.Script.Coercion
import PixelEffects.Proofs.Script.Library.Sub
import PixelEffects.Proofs.Script.Library.Format
import PixelEffects.Proofs.Script.Course
import PixelEffects.Proofs.Script.Declared
import PixelEffects.Proofs.Script.Assignment
import PixelEffects.Proofs.Image.Gradient
import PixelEffects.Proofs.Package.Listing
import PixelEffects.Proofs.FileTree.Change
import PixelEffects.Proofs.CommandLine.NewEffect
import PixelEffects.Proofs.Effect.Traceless
import PixelEffects.Proofs.Effect.Copying
import PixelEffects.Proofs.CommandLine.Starter
import PixelEffects.Proofs.CommandLine.Generated
import PixelEffects.Proofs.Package.Reordering
import PixelEffects.Proofs.Number.Nearest
import PixelEffects.Proofs.Script.HostValue.Fields
import PixelEffects.Proofs.Effect.Result
import PixelEffects.Proofs.Effect.Blame
import PixelEffects.Proofs.Chain.Line
import PixelEffects.Proofs.CommandLine.Operands
import PixelEffects.Proofs.CommandLine.Parser
import PixelEffects.Proofs.Image.File
import PixelEffects.Proofs.CommandLine.Delivery
import PixelEffects.Proofs.Effect.Plans
import PixelEffects.Proofs.CommandLine.SingleStage
import PixelEffects.Proofs.Text.Letters
import PixelEffects.Proofs.Script.Token.Letters
import PixelEffects.Proofs.Script.Token.Bytes
import PixelEffects.Proofs.Script.Token.Ranges
import PixelEffects.Proofs.Script.Token.Literals
import PixelEffects.Proofs.Script.ChunkCache.Callers
import PixelEffects.Proofs.Script.Counters
