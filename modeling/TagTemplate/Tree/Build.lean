/-
# Tree.Build -- tokens become a tree, whatever their nesting

The tokens of one template are put below a new root, one after the other, at the
innermost open block.  A closing tag closes the nearest open block of its name;
the blocks opened inside that one and still open are abandoned, innermost first,
with a diagnostic each.  A closing tag that matches no open block leaves only a
diagnostic, and so does every block still open at the end.

The children of a block definition leave the tree when it closes: they become a
body of its name on the block stack.  The first `extends` tag with a `parent`
attribute names the template this one extends; it has no node.
-/
import TagTemplate.BlockStack
import TagTemplate.Diagnostic
import TagTemplate.Event
import TagTemplate.Token

namespace TagTemplate

set_option autoImplicit false

open Text

/-- What the tokens read so far have built. -/
structure Builder where
  /-- The prepared source, for the positions of diagnostics. -/
  source : Text
  tree : Tree
  blocks : BlockStack
  root : NodeId
  /-- The innermost open block, or the root. -/
  current : NodeId
  extendsTarget : Option Text := none
  diagnostics : List Diagnostic := []
  events : List Event := []

namespace Builder

def start (source : Text) (tree : Tree) (blocks : BlockStack) : Builder :=
  { source, tree := tree.addRoot, blocks, root := tree.size, current := tree.size }

def note (b : Builder) (e : Event) : Builder := { b with events := b.events ++ [e] }

def report (b : Builder) (fault : Fault) (tag : Text) (offset : Nat) : Builder :=
  let d : Diagnostic := ⟨fault, tag, none, Position.ofOffset b.source offset, offset⟩
  { b with diagnostics := b.diagnostics ++ [d] }

def reportMissing (b : Builder) (id : NodeId) : Builder :=
  let tag := (b.tree.tag? id).getD []
  let offset := ((b.tree.node? id).map (·.offset)).getD 0
  (b.note (.missingClosingTag tag)).report .missingClosingTag tag offset

def add (b : Builder) (kind : NodeKind) (offset : Nat) : Builder :=
  { b with tree := b.tree.append b.current kind offset }

/-- Close a node; the children of a definition become a body of its name. -/
def close (b : Builder) (id : NodeId) : Builder :=
  let tree := b.tree.setState id .closed
  match tree.kind? id with
  | some (.definition name _ _) =>
    let blocks := b.blocks.push name (tree.children id)
    note { b with tree := tree.clearChildren id, blocks } (.definitionClosed name (blocks.depth name))
  | _ => { b with tree }

/-- Give up a node whose ancestor is being closed. -/
def abandon (b : Builder) (id : NodeId) : Builder :=
  reportMissing { b with tree := b.tree.setState id .abandoned } id

/-- The innermost open block and the blocks around it, from the inside out. -/
def openPath (b : Builder) : List NodeId := b.current :: b.tree.ancestors b.current

def closedBy (b : Builder) (name : Text) (id : NodeId) : Bool := b.tree.tag? id == some name

def pushValue (b : Builder) (tag : Tag) (offset : Nat) : Builder :=
  if tag.name = extendsTag then
    match b.extendsTarget with
    | some _ => b
    | none => { b with extendsTarget := tag.attributes.get? "parent".toList }
  else if tag.name = parentTag then b.add .parentValue offset
  else b.add (.value tag.name tag.attributes tag.raw) offset

def blockKind (tag : Tag) : NodeKind :=
  if tag.name = definitionTag then
    .definition ((tag.attributes.get? "name".toList).getD []) tag.attributes .opened
  else .block tag.name tag.attributes .opened

def openBlock (b : Builder) (tag : Tag) (selfClosing : Bool) (offset : Nat) : Builder :=
  let id := b.tree.size
  let b := b.add (blockKind tag) offset
  if selfClosing then b.close id else { b with current := id }

def closeBlock (b : Builder) (name : Text) (offset : Nat) : Builder :=
  match b.openPath.dropWhile (!b.closedBy name ·) with
  | [] => (b.note (.unexpectedClosingTag name)).report .unexpectedClosingTag name offset
  | matched :: _ =>
    let inner := b.openPath.takeWhile (!b.closedBy name ·)
    let b := (inner.foldl abandon b).close matched
    { b with current := (b.tree.parent? matched).getD b.root }

def push (b : Builder) (t : Token) : Builder :=
  match t.fragment with
  | .text text => b.add (.text text) t.start
  | .tag tag =>
    match tag.shape with
    | .value _ => b.pushValue tag t.start
    | .opening _ selfClosing => b.openBlock tag selfClosing t.start
    | .closing => b.closeBlock tag.name t.start

def finish (b : Builder) : Builder := (b.openPath.takeWhile (· != b.root)).foldl reportMissing b

end Builder

def Tree.build (tokens : List Token) (source : Text) (tree : Tree) (blocks : BlockStack) : Builder :=
  (tokens.foldl Builder.push (Builder.start source tree blocks)).finish

end TagTemplate
