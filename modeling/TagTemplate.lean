import TagTemplate.Handler.Recipe
import TagTemplate.Main
import TagTemplate.Proofs.Source.CommentLines
import TagTemplate.Proofs.BlockStack
import TagTemplate.Proofs.Chain
import TagTemplate.Proofs.Compile.BodyText
import TagTemplate.Proofs.Compile.Inheritance
import TagTemplate.Proofs.Compile.Memoization
import TagTemplate.Proofs.Cache
import TagTemplate.Proofs.Compile.Handlers
import TagTemplate.Proofs.Compile.Ignored
import TagTemplate.Proofs.Compile.Recovery
import TagTemplate.Proofs.Engine
import TagTemplate.Proofs.Engine.Freshness
import TagTemplate.Proofs.Engine.Stripping
import TagTemplate.Proofs.Tree.Graft
import TagTemplate.Proofs.Tree.Nesting
import TagTemplate.Proofs.Tree.Ownership
import TagTemplate.Proofs.Chain.Outcome
import TagTemplate.Proofs.Cache.Ready
import TagTemplate.Proofs.Engine.Requests
import TagTemplate.Proofs.Engine.Sharing
import TagTemplate.Proofs.Engine.Confinement
import TagTemplate.Proofs.Token.Printing
import TagTemplate.Proofs.Cache.Replacement
import TagTemplate.Proofs.Engine.Answers
import TagTemplate.Proofs.Token.Offsets
import TagTemplate.Proofs.Position
import TagTemplate.Proofs.Rendering.Delimited
import TagTemplate.Proofs.Rendering.Lookups
import TagTemplate.Proofs.Token.Partition
import TagTemplate.Proofs.Rendering.Verbatim
import TagTemplate.Proofs.Engine.Notes
import TagTemplate.Proofs.Source.Remnants
import TagTemplate.Proofs.Tree.Locality
import TagTemplate.Proofs.Engine.Diagnostics
import TagTemplate.Proofs.Compile.Likeness
import TagTemplate.Proofs.Tree.Sketch
import TagTemplate.Proofs.Tree.Revision
import TagTemplate.Proofs.Engine.Extending
import TagTemplate.Proofs.Token.Whitespace
import TagTemplate.Proofs.Token.Outline
import TagTemplate.Proofs.Source.ValueTags
import TagTemplate.Proofs.Source.Literals
import TagTemplate.Proofs.Rendering.Literals
import TagTemplate.Proofs.Engine.Literals
import TagTemplate.Proofs.Tree.Splice
import TagTemplate.Proofs.Compile.Transparency
import TagTemplate.Proofs.Compile.Outline
import TagTemplate.Proofs.Engine.Transparency
import TagTemplate.Proofs.Compile.Resolved
import TagTemplate.Proofs.Compile.Cursors
import TagTemplate.Proofs.Compile.Once
import TagTemplate.Proofs.Cache.History
import TagTemplate.Proofs.Engine.Parents
import TagTemplate.Proofs.Rendering.Includes
import TagTemplate.Proofs.CommandLine.Check
