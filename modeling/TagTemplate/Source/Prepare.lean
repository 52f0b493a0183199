/-
# Source.Prepare -- the text that tags are read from

A source is prepared in two passes: template comments go first, always; then,
if the options ask for it, the regions of the rendering language.  Offsets in
tokens, tree and diagnostics all refer to the prepared text.
-/
import TagTemplate.Source.Comment
import TagTemplate.Source.HostSnippet

namespace TagTemplate.Source

set_option autoImplicit false

/-- How a source is prepared before its tags are read. -/
structure Options where
  /-- Strip the regions of the rendering language. -/
  stripSnippets : Bool := false
  /-- When stripping, keep regions that are no directive as literal text. -/
  passLiterals : Bool := true
  deriving DecidableEq, Repr

def prepare (options : Options) (source : Text) : Text :=
  let text := removeComments source
  if options.stripSnippets then stripSnippets options.passLiterals text else text

end TagTemplate.Source
