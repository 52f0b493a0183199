/-
# Event -- what is noted in the log

Every step that a reader of the log may want to see is an event: a fault while a
tree is built, a body that is resolved, a template that is found, a file of the
cache that is written.  An event has a level, a message and named fields, and
one line that shows them (`Event.line`).
-/
import TagTemplate.Path

namespace TagTemplate

set_option autoImplicit false

open Text

/-- How much an event matters. -/
inductive Level where
  | warn
  | debug
  | trace
  deriving DecidableEq, Repr

def Level.word : Level → Text
  | .warn => "WARN".toList
  | .debug => "DEBUG".toList
  | .trace => "TRACE".toList

/-- A step that is noted in the log. -/
inductive Event where
  | unexpectedClosingTag (tag : Text)
  | missingClosingTag (tag : Text)
  | definitionClosed (name : Text) (depth : Nat)
  | noBlockHandler (tag : Text)
  | noValueHandler (tag : Text)
  | resolvingBody (name : Text) (position : Nat)
  | rejectedName (name : Text)
  | resolvedTemplate (name : Text) (dir : Location)
  | followingExtends (parent : Location)
  | compiledChain (files nodes errors : Nat)
  | artifactFresh (name : Text)
  | servedFromCache (name : Text)
  | wroteArtifact (artifact : Location)
  deriving DecidableEq, Repr

namespace Event

def level : Event → Level
  | .unexpectedClosingTag _ | .missingClosingTag _ => .warn
  | .compiledChain .. | .wroteArtifact _ => .debug
  | _ => .trace

def message : Event → Text
  | .unexpectedClosingTag _ => "unexpected closing tag".toList
  | .missingClosingTag _ => "missing closing tag".toList
  | .definitionClosed .. => "block definition closed".toList
  | .noBlockHandler _ => "no handler for block tag".toList
  | .noValueHandler _ => "no handler for value tag".toList
  | .resolvingBody .. => "resolving block body".toList
  | .rejectedName _ => "rejected template name outside the search path".toList
  | .resolvedTemplate .. => "resolved template".toList
  | .followingExtends _ => "following extends".toList
  | .compiledChain .. => "compiled template chain".toList
  | .artifactFresh _ => "compiled template is fresh".toList
  | .servedFromCache _ => "compiled template served from cache".toList
  | .wroteArtifact _ => "wrote compiled template".toList

def fields : Event → List (Text × Text)
  | .unexpectedClosingTag tag | .missingClosingTag tag | .noBlockHandler tag | .noValueHandler tag =>
    [("tag".toList, tag)]
  | .definitionClosed name depth => [("name".toList, name), ("depth".toList, decimal depth)]
  | .resolvingBody name position => [("name".toList, name), ("position".toList, decimal position)]
  | .rejectedName name | .artifactFresh name | .servedFromCache name => [("name".toList, name)]
  | .resolvedTemplate name dir => [("name".toList, name), ("dir".toList, dir.written)]
  | .followingExtends parent => [("parent".toList, parent.written)]
  | .compiledChain files nodes errors =>
    [("files".toList, decimal files), ("nodes".toList, decimal nodes), ("errors".toList, decimal errors)]
  | .wroteArtifact artifact => [("artifact".toList, artifact.written)]

def line (e : Event) : Text :=
  e.level.word ++ ' ' :: e.message ++ e.fields.flatMap fun f => ' ' :: f.1 ++ '=' :: f.2

end Event

end TagTemplate
