/-
# Proofs.Tree.Recovery -- what is left of ill-nested tags

Tokens can be read without an arena.  `Nested` relates a well-nested sequence of
tokens to the markup it writes, and `erase` makes any sequence well nested: it drops
every closing tag that closes nothing, and every block that is never closed together
with what is in it.  It needs no more than the stack of blocks that are open, each
with the tokens kept in it so far (`Erasure`).

Building a tree does the same on the arena.  Both are related at every point
(`Tracks`): along the open path, from the innermost open block to the root, the node
of each open block holds settled nodes that say what the tokens kept in that block
write, and the next open block after them (`Spine`).  Every token keeps this
(`tracks_push`).

The reserved tags are left out on both sides: they have no place in the tree alone.
-/
import TagTemplate.Proofs.Compile.Calls
import TagTemplate.Proofs.Tree.Build

namespace TagTemplate

set_option autoImplicit false

/-! ## Tokens without a tree -/

/-- A tag that has a meaning of its own: a block definition, or one of the values `extends` and `parent`. -/
def Token.isReserved (t : Token) : Bool :=
  match t.fragment with
  | .text _ => false
  | .tag tag =>
    match tag.shape with
    | .value _ => tag.name == extendsTag || tag.name == parentTag
    | .opening .. => tag.name == definitionTag
    | .closing => tag.name == definitionTag

/-- A well-nested sequence of tokens without reserved tags, and the markup it writes. -/
inductive Nested : List Token → List Markup → Prop where
  | nil : Nested [] []
  | text {t : Token} {x : Text} {ts : List Token} {ms : List Markup} (fragment : t.fragment = .text x)
      (rest : Nested ts ms) : Nested (t :: ts) (.text x :: ms)
  | value {t : Token} {tag : Tag} {raw : Text} {ts : List Token} {ms : List Markup} (ordinary : t.isReserved = false)
      (fragment : t.fragment = .tag tag) (shape : tag.shape = .value raw) (rest : Nested ts ms) :
      Nested (t :: ts) (.value tag.name tag.attributes tag.raw :: ms)
  | selfClosing {t : Token} {tag : Tag} {raw : Text} {ts : List Token} {ms : List Markup}
      (ordinary : t.isReserved = false) (fragment : t.fragment = .tag tag) (shape : tag.shape = .opening raw true)
      (rest : Nested ts ms) : Nested (t :: ts) (.block tag.name tag.attributes [] :: ms)
  | block {t t' : Token} {tag tag' : Tag} {raw : Text} {inner ts : List Token} {content ms : List Markup}
      (ordinary : t.isReserved = false) (fragment : t.fragment = .tag tag) (shape : tag.shape = .opening raw false)
      (closes : t'.fragment = .tag tag') (shape' : tag'.shape = .closing) (same : tag'.name = tag.name)
      (inside : Nested inner content) (rest : Nested ts ms) :
      Nested (t :: (inner ++ t' :: ts)) (.block tag.name tag.attributes content :: ms)

/-- The closing tag of a block that no definition opened belongs to no definition. -/
theorem Token.isReserved_closing {t t' : Token} {tag tag' : Tag} {raw : Text} (ordinary : t.isReserved = false)
    (fragment : t.fragment = .tag tag) (shape : tag.shape = .opening raw false) (closes : t'.fragment = .tag tag')
    (shape' : tag'.shape = .closing) (same : tag'.name = tag.name) : t'.isReserved = false := by
  simpa [Token.isReserved, fragment, shape, closes, shape', same] using ordinary

theorem Nested.ordinary {ts : List Token} {ms : List Markup} (nested : Nested ts ms) :
    ∀ t ∈ ts, t.isReserved = false := by
  induction nested with
  | nil => nofun
  | text fragment _ ih => exact List.forall_mem_cons.2 ⟨by rw [Token.isReserved, fragment], ih⟩
  | value ordinary _ _ _ ih => exact List.forall_mem_cons.2 ⟨ordinary, ih⟩
  | selfClosing ordinary _ _ _ ih => exact List.forall_mem_cons.2 ⟨ordinary, ih⟩
  | @block t t' tag tag' _ _ _ _ _ ordinary fragment shape closes shape' same _ _ ih_inner ih =>
    have ordinary' := Token.isReserved_closing ordinary fragment shape closes shape' same
    exact List.forall_mem_cons.2 ⟨ordinary, List.forall_mem_append.2 ⟨ih_inner, List.forall_mem_cons.2 ⟨ordinary', ih⟩⟩⟩

theorem Nested.append {ts ts' : List Token} {ms ms' : List Markup} (first : Nested ts ms) (second : Nested ts' ms') :
    Nested (ts ++ ts') (ms ++ ms') := by
  induction first with
  | nil => exact second
  | text fragment _ ih => exact .text fragment ih
  | value ordinary fragment shape _ ih => exact .value ordinary fragment shape ih
  | selfClosing ordinary fragment shape _ ih => exact .selfClosing ordinary fragment shape ih
  | block ordinary fragment shape closes shape' same inside _ _ ih =>
    rw [List.cons_append, List.append_assoc, List.cons_append]
    exact .block ordinary fragment shape closes shape' same inside ih

/-! ## Reading markup -/

/-- The markup read so far: that of the blocks being read, innermost first, and that outside of them. -/
structure Reading where
  blocks : List (Tag × List Markup) := []
  content : List Markup := []

namespace Reading

def add (r : Reading) (ms : List Markup) : Reading :=
  match r.blocks with
  | [] => { r with content := r.content ++ ms }
  | b :: outer => { r with blocks := (b.1, b.2 ++ ms) :: outer }

def push (r : Reading) (t : Token) : Reading :=
  match t.fragment with
  | .text x => r.add [.text x]
  | .tag tag =>
    match tag.shape with
    | .value _ => r.add [.value tag.name tag.attributes tag.raw]
    | .opening _ true => r.add [.block tag.name tag.attributes []]
    | .opening _ false => { r with blocks := (tag, []) :: r.blocks }
    | .closing =>
      match r.blocks with
      | [] => r
      | b :: outer => { r with blocks := outer }.add [.block b.1.name b.1.attributes b.2]

theorem add_add (r : Reading) (ms ms' : List Markup) : (r.add ms).add ms' = r.add (ms ++ ms') := by
  obtain ⟨_ | ⟨b, outer⟩, content⟩ := r <;> simp [add]

theorem add_nil (r : Reading) : r.add [] = r := by
  obtain ⟨_ | ⟨b, outer⟩, content⟩ := r <;> simp [add]

end Reading

theorem Nested.foldl_read {ts : List Token} {ms : List Markup} (nested : Nested ts ms) (r : Reading) :
    ts.foldl Reading.push r = r.add ms := by
  induction nested generalizing r with
  | nil => exact r.add_nil.symm
  | text fragment _ ih =>
    rw [List.foldl_cons, ih, Reading.push, fragment]
    exact r.add_add ..
  | value _ fragment shape _ ih =>
    rw [List.foldl_cons, ih, Reading.push, fragment]
    simp only [shape]
    exact r.add_add ..
  | selfClosing _ fragment shape _ ih =>
    rw [List.foldl_cons, ih, Reading.push, fragment]
    simp only [shape]
    exact r.add_add ..
  | @block t t' tag tag' _ inner ts content ms _ fragment shape closes shape' _ _ _ ih_inner ih =>
    have opened : r.push t = { r with blocks := (tag, []) :: r.blocks } := by
      rw [Reading.push, fragment]
      simp only [shape]
    have closed : (Reading.add { r with blocks := (tag, []) :: r.blocks } content).push t'
        = r.add [.block tag.name tag.attributes content] := by
      rw [Reading.push, closes]
      simp [shape', Reading.add]
    rw [List.foldl_cons, opened, List.foldl_append, ih_inner, List.foldl_cons, closed, ih, Reading.add_add]
    rfl

/-- Well-nested tokens write one markup only. -/
theorem Nested.unique {ts : List Token} {ms ms' : List Markup} (nested : Nested ts ms) (nested' : Nested ts ms') :
    ms = ms' := by
  have same : Reading.add {} ms = Reading.add {} ms' := (nested.foldl_read {}).symm.trans (nested'.foldl_read {})
  exact congrArg Reading.content same

/-! ## Erasing -/

/-- A block that is still open, and the tokens kept in it. -/
structure OpenBlock where
  opening : Token
  tag : Tag
  kept : List Token := []

/-- A block that an opening tag without a meaning of its own has opened. -/
structure OpenBlock.Ordinary (b : OpenBlock) : Prop where
  ordinary : b.opening.isReserved = false
  fragment : b.opening.fragment = .tag b.tag
  shape : ∃ raw, b.tag.shape = .opening raw false

/-- A block that gets its closing tag is well nested if what is kept in it is. -/
theorem OpenBlock.Ordinary.nested {b : OpenBlock} (opens : b.Ordinary) {t : Token} {tag : Tag}
    (closes : t.fragment = .tag tag) (shape : tag.shape = .closing) (same : tag.name = b.tag.name) {ms : List Markup}
    (inside : Nested b.kept ms) : Nested (b.opening :: (b.kept ++ [t])) [.block b.tag.name b.tag.attributes ms] := by
  obtain ⟨ordinary, fragment, _, opening⟩ := opens
  exact .block ordinary fragment opening closes shape same inside .nil

/-- The blocks that are still open, innermost first, and the tokens kept outside of them. -/
structure Erasure where
  blocks : List OpenBlock := []
  kept : List Token := []

namespace Erasure

def keep (e : Erasure) (ts : List Token) : Erasure :=
  match e.blocks with
  | [] => { e with kept := e.kept ++ ts }
  | b :: outer => { e with blocks := { b with kept := b.kept ++ ts } :: outer }

/-- Close the innermost open block of a name and keep it as a whole; the blocks inside of it that are
still open are dropped.  If there is none, the closing tag is. -/
def closeBlock (e : Erasure) (name : Text) (closing : Token) : Erasure :=
  match e.blocks.dropWhile (·.tag.name != name) with
  | [] => e
  | b :: outer => { e with blocks := outer }.keep (b.opening :: (b.kept ++ [closing]))

def push (e : Erasure) (t : Token) : Erasure :=
  match t.fragment with
  | .text _ => e.keep [t]
  | .tag tag =>
    match tag.shape with
    | .value _ | .opening _ true => e.keep [t]
    | .opening _ false => { e with blocks := { opening := t, tag } :: e.blocks }
    | .closing => e.closeBlock tag.name t

theorem keep_keep (e : Erasure) (ts ts' : List Token) : (e.keep ts).keep ts' = e.keep (ts ++ ts') := by
  obtain ⟨_ | ⟨b, outer⟩, kept⟩ := e <;> simp [keep]

theorem keep_nil (e : Erasure) : e.keep [] = e := by
  obtain ⟨_ | ⟨b, outer⟩, kept⟩ := e <;> simp [keep]

end Erasure

/-- The tokens without the closing tags that close nothing and the blocks that are never closed. -/
def erase (tokens : List Token) : List Token := (tokens.foldl Erasure.push {}).kept

/-- Tokens that are well nested are kept, all of them. -/
theorem Nested.foldl_push {ts : List Token} {ms : List Markup} (nested : Nested ts ms) (e : Erasure) :
    ts.foldl Erasure.push e = e.keep ts := by
  induction nested generalizing e with
  | nil => exact e.keep_nil.symm
  | text fragment _ ih =>
    rw [List.foldl_cons, ih, Erasure.push, fragment]
    exact e.keep_keep ..
  | value _ fragment shape _ ih =>
    rw [List.foldl_cons, ih, Erasure.push, fragment]
    simp only [shape]
    exact e.keep_keep ..
  | selfClosing _ fragment shape _ ih =>
    rw [List.foldl_cons, ih, Erasure.push, fragment]
    simp only [shape]
    exact e.keep_keep ..
  | @block t t' tag tag' _ inner ts _ _ _ fragment shape closes shape' same _ _ ih_inner ih =>
    have opened : e.push t = { e with blocks := { opening := t, tag } :: e.blocks } := by
      rw [Erasure.push, fragment]
      simp only [shape]
    have closed : (Erasure.keep { e with blocks := { opening := t, tag } :: e.blocks } inner).push t'
        = e.keep (t :: (inner ++ [t'])) := by
      rw [Erasure.push, closes]
      simp [shape', Erasure.closeBlock, Erasure.keep, same]
    rw [List.foldl_cons, opened, List.foldl_append, ih_inner, List.foldl_cons, closed, ih, Erasure.keep_keep]
    simp

theorem erase_of_nested {ts : List Token} {ms : List Markup} (nested : Nested ts ms) : erase ts = ts := by
  rw [erase, nested.foldl_push]
  rfl

/-! ## The open path -/

namespace Tree

/-- A tree reads the same as another one at all nodes but one, and may have more nodes. -/
structure SameBut (t t' : Tree) (changed : Nat) : Prop where
  size : t.size ≤ t'.size
  kind : ∀ i : Nat, i ≠ changed → i < t.size → t'.kind? i = t.kind? i
  parent : ∀ i : Nat, i ≠ changed → i < t.size → t'.parent? i = t.parent? i
  children : ∀ i : Nat, i ≠ changed → i < t.size → t'.children i = t.children i

theorem lt_size_of_kind? {t : Tree} {i : Nat} {k : NodeKind} (kind : t.kind? i = some k) : i < t.size := by
  refine Nat.lt_of_not_le fun le => ?_
  rw [kind?_of_size_le le] at kind
  cases kind

theorem sameBut_append {t : Tree} {parent : NodeId} (inside : parent < t.size) (kind : NodeKind) (offset : Nat) :
    t.SameBut (t.append parent kind offset) parent where
  size := by rw [size_append]; exact Nat.le_succ _
  kind i _ lt := by rw [kind?_append inside, if_neg (Nat.ne_of_lt lt)]
  parent i _ lt := by rw [parent?_append inside, if_neg (Nat.ne_of_lt lt)]
  children i ne _ := by rw [children_append inside, if_neg ne]

theorem sameBut_setState (t : Tree) (id : NodeId) (s : BlockState) : t.SameBut (t.setState id s) id where
  size := Nat.le_of_eq (size_setState t id s).symm
  kind i ne _ := by rw [kind?_setState, if_neg (Ne.symm ne)]
  parent i _ _ := by rw [parent?_setState]
  children i _ _ := by rw [children_setState]

/-- What settled nodes say depends on settled nodes alone. -/
theorem Says.of_sameBut {t t' : Tree} {changed : NodeId} (same : t.SameBut t' changed)
    (unsettled : t.kind? changed = some .root ∨ ∃ tag attributes, t.kind? changed = some (.block tag attributes .opened))
    {ids : List NodeId} {ms : List Markup} (said : t.Says ids ms) : t'.Says ids ms := by
  have keeps {id : Nat} {k : NodeKind} (kind : t.kind? id = some k) (settled : k ≠ .root)
      (settled' : ∀ tag attributes, k ≠ .block tag attributes .opened) :
      t'.kind? id = some k ∧ t'.children id = t.children id := by
    have ne : id ≠ changed := by
      rintro rfl
      rcases unsettled with root | ⟨tag, attributes, opened⟩
      · exact settled (Option.some.inj (kind.symm.trans root))
      · exact settled' tag attributes (Option.some.inj (kind.symm.trans opened))
    have lt := lt_size_of_kind? kind
    exact ⟨(same.kind id ne lt).trans kind, same.children id ne lt⟩
  induction said with
  | nil => exact .nil
  | text kind _ ih => exact .text (keeps kind nofun nofun).1 ih
  | value kind _ ih => exact .value (keeps kind nofun nofun).1 ih
  | block kind inside _ _ ih_inner ih =>
    obtain ⟨kind', children⟩ := keeps kind nofun nofun
    refine .block kind' (fun child mem => ?_) (children ▸ ih_inner) ih
    rw [children] at mem
    exact (inside child mem).imp_right (Nat.lt_of_lt_of_le · same.size)
  | abandoned kind _ ih => exact .abandoned (keeps kind nofun nofun).1 ih

/-- A node holds settled nodes that say what some tokens write, and some more nodes after them. -/
structure Holds (t : Tree) (id : Nat) (kept : List Token) (more : List NodeId) : Prop where
  parts : ∃ done ms, t.children id = done ++ more ∧ t.Says done ms ∧ Nested kept ms
  inside : ∀ child : Nat, child ∈ t.children id → id < child ∧ child < t.size

/-- The nodes of the open blocks from a node outwards, which holds some more nodes at its end: each holds
the tokens kept in its block, and the node of the next open block after that. -/
inductive Spine (t : Tree) (root : NodeId) : NodeId → List NodeId → Erasure → Prop where
  | root {more : List NodeId} {kept : List Token} (kind : t.kind? root = some .root) (parent : t.parent? root = none)
      (holds : t.Holds root kept more) : Spine t root root more ⟨[], kept⟩
  | block {id outer : Nat} {more : List NodeId} {b : OpenBlock} {blocks : List OpenBlock} {kept : List Token}
      (opens : b.Ordinary) (kind : t.kind? id = some (.block b.tag.name b.tag.attributes .opened))
      (parent : t.parent? id = some outer) (lt : outer < id) (holds : t.Holds id b.kept more)
      (above : Spine t root outer [id] ⟨blocks, kept⟩) : Spine t root id more ⟨b :: blocks, kept⟩

namespace Spine

variable {t t' : Tree} {root id : NodeId} {more : List NodeId} {e : Erasure}

theorem unsettled (spine : t.Spine root id more e) :
    t.kind? id = some .root ∨ ∃ tag attributes, t.kind? id = some (.block tag attributes .opened) := by
  cases spine with
  | root kind _ _ => exact .inl kind
  | block _ kind _ _ _ _ => exact .inr ⟨_, _, kind⟩

theorem lt_size (spine : t.Spine root id more e) : id < t.size := by
  rcases spine.unsettled with kind | ⟨_, _, kind⟩ <;> exact lt_size_of_kind? kind

end Spine

theorem Holds.of_sameBut {t t' : Tree} {changed : NodeId} (same : t.SameBut t' changed)
    (unsettled : t.kind? changed = some .root ∨ ∃ tag attributes, t.kind? changed = some (.block tag attributes .opened))
    {id : Nat} {kept : List Token} {more : List NodeId} (ne : id ≠ changed) (lt : id < t.size)
    (holds : t.Holds id kept more) : t'.Holds id kept more := by
  obtain ⟨⟨done, ms, children, said, nested⟩, inside⟩ := holds
  refine ⟨⟨done, ms, (same.children id ne lt).trans children, said.of_sameBut same unsettled, nested⟩, fun child mem => ?_⟩
  rw [same.children id ne lt] at mem
  exact (inside child mem).imp_right (Nat.lt_of_lt_of_le · same.size)

/-- A change further in leaves the path from a node outwards as it was. -/
theorem Spine.of_sameBut {t t' : Tree} {changed : Nat} (same : t.SameBut t' changed)
    (unsettled : t.kind? changed = some .root ∨ ∃ tag attributes, t.kind? changed = some (.block tag attributes .opened))
    {root id : NodeId} {more : List NodeId} {e : Erasure} (spine : t.Spine root id more e) (lt : id < changed) :
    t'.Spine root id more e := by
  induction spine with
  | root kind parent holds =>
    have inside := lt_size_of_kind? kind
    have ne := Nat.ne_of_lt lt
    exact .root ((same.kind _ ne inside).trans kind) ((same.parent _ ne inside).trans parent)
      (holds.of_sameBut same unsettled ne inside)
  | block opens kind parent below holds _ ih =>
    have inside := lt_size_of_kind? kind
    have ne := Nat.ne_of_lt lt
    exact .block opens ((same.kind _ ne inside).trans kind) ((same.parent _ ne inside).trans parent) below
      (holds.of_sameBut same unsettled ne inside) (ih (Nat.lt_trans below lt))

/-! ## Steps on the path -/

/-- The nodes at the end of what a node holds are settled and say what some tokens write. -/
theorem Holds.settle {t : Tree} {id : Nat} {kept ts : List Token} {more : List NodeId} {ms : List Markup}
    (holds : t.Holds id kept more) (said : t.Says more ms) (nested : Nested ts ms) : t.Holds id (kept ++ ts) [] := by
  obtain ⟨⟨done, ms', children, said', nested'⟩, inside⟩ := holds
  exact ⟨⟨done ++ more, ms' ++ ms, by rw [children, List.append_nil], said'.append said, nested'.append nested⟩, inside⟩

theorem Spine.settle {t : Tree} {root id : NodeId} {more : List NodeId} {e : Erasure} {ts : List Token}
    {ms : List Markup} (spine : t.Spine root id more e) (said : t.Says more ms) (nested : Nested ts ms) :
    t.Spine root id [] (e.keep ts) := by
  cases spine with
  | root kind parent holds => exact .root kind parent (holds.settle said nested)
  | block opens kind parent lt holds above =>
    exact .block ⟨opens.ordinary, opens.fragment, opens.shape⟩ kind parent lt (holds.settle said nested) above

/-- A new node comes after what the innermost open block holds. -/
theorem Holds.append {t : Tree} {id : Nat} {kept : List Token} (holds : t.Holds id kept []) (inside : id < t.size)
    (unsettled : t.kind? id = some .root ∨ ∃ tag attributes, t.kind? id = some (.block tag attributes .opened))
    (kind : NodeKind) (offset : Nat) : (t.append id kind offset).Holds id kept [t.size] := by
  obtain ⟨⟨done, ms, children, said, nested⟩, bounds⟩ := holds
  have grown : (t.append id kind offset).children id = t.children id ++ [t.size] := by
    rw [children_append inside, if_pos rfl]
  refine ⟨⟨done, ms, ?_, said.of_sameBut (sameBut_append inside kind offset) unsettled, nested⟩, fun child mem => ?_⟩
  · rw [grown, children, List.append_nil]
  · rw [grown] at mem
    rw [size_append]
    rcases List.mem_append.1 mem with old | new
    · exact (bounds child old).imp_right Nat.lt_succ_of_lt
    · rw [List.mem_singleton.1 new]
      exact ⟨inside, Nat.lt_succ_self _⟩

theorem Spine.append {t : Tree} {root id : NodeId} {e : Erasure} (spine : t.Spine root id [] e) (kind : NodeKind)
    (offset : Nat) : (t.append id kind offset).Spine root id [t.size] e := by
  have inside := spine.lt_size
  have unsettled := spine.unsettled
  have same := sameBut_append inside kind offset
  have old : id ≠ t.size := Nat.ne_of_lt inside
  cases spine with
  | root kind' parent holds =>
    refine .root ?_ ?_ (holds.append inside unsettled kind offset)
    · rw [kind?_append inside, if_neg old, kind']
    · rw [parent?_append inside, if_neg old, parent]
  | block opens kind' parent lt holds above =>
    refine .block opens ?_ ?_ lt (holds.append inside unsettled kind offset) (above.of_sameBut same unsettled lt)
    · rw [kind?_append inside, if_neg old, kind']
    · rw [parent?_append inside, if_neg old, parent]

theorem kind?_append_new {t : Tree} {parent : NodeId} (inside : parent < t.size) (kind : NodeKind) (offset : Nat) :
    (t.append parent kind offset).kind? t.size = some kind := by
  rw [kind?_append inside, if_pos rfl]

/-- A new node that is settled at once. -/
theorem Spine.append_settled {t : Tree} {root id : NodeId} {e : Erasure} (spine : t.Spine root id [] e)
    (kind : NodeKind) (offset : Nat) {ts : List Token} {ms : List Markup}
    (said : (t.append id kind offset).Says [t.size] ms) (nested : Nested ts ms) :
    (t.append id kind offset).Spine root id [] (e.keep ts) :=
  (spine.append kind offset).settle said nested

/-- The innermost open block is put into its last state. -/
theorem Spine.setState {t : Tree} {root id : NodeId} {b : OpenBlock} {blocks : List OpenBlock} {kept : List Token}
    (spine : t.Spine root id [] ⟨b :: blocks, kept⟩) (s : BlockState) :
    ∃ outer ms, t.parent? id = some outer ∧
      (t.setState id s).kind? id = some (.block b.tag.name b.tag.attributes s) ∧
      (t.setState id s).Holds id b.kept [] ∧ (t.setState id s).Says ((t.setState id s).children id) ms ∧
      Nested b.kept ms ∧ (t.setState id s).Spine root outer [id] ⟨blocks, kept⟩ := by
  have unsettled := spine.unsettled
  have same := sameBut_setState t id s
  cases spine with
  | @block _ outer _ _ _ _ _ kind parent lt holds above =>
    obtain ⟨⟨done, ms, children, said, nested⟩, inside⟩ := holds
    have said' := said.of_sameBut same unsettled
    have children' : (t.setState id s).children id = done := by
      rw [children_setState, children, List.append_nil]
    refine ⟨outer, ms, parent, ?_, ⟨⟨done, ms, ?_, said', nested⟩, ?_⟩, ?_, nested, above.of_sameBut same unsettled lt⟩
    · rw [kind?_setState, if_pos rfl, kind]
      rfl
    · rw [children', List.append_nil]
    · rw [children_setState, size_setState]
      exact inside
    · rwa [children']

/-- A block that is given up says nothing. -/
theorem Spine.abandon {t : Tree} {root id : NodeId} {b : OpenBlock} {blocks : List OpenBlock} {kept : List Token}
    (spine : t.Spine root id [] ⟨b :: blocks, kept⟩) :
    ∃ outer, t.parent? id = some outer ∧ (t.setState id .abandoned).Spine root outer [] ⟨blocks, kept⟩ := by
  obtain ⟨outer, _, parent, kind, -, -, -, above⟩ := spine.setState .abandoned
  have settled := above.settle (.abandoned kind .nil) .nil
  rw [Erasure.keep_nil] at settled
  exact ⟨outer, parent, settled⟩

/-- A block that is closed says what the tokens kept in it write. -/
theorem Spine.close {t : Tree} {root id : NodeId} {b : OpenBlock} {blocks : List OpenBlock} {kept ts : List Token}
    (spine : t.Spine root id [] ⟨b :: blocks, kept⟩)
    (nested : ∀ ms, Nested b.kept ms → Nested ts [.block b.tag.name b.tag.attributes ms]) :
    ∃ outer, t.parent? id = some outer ∧
      (t.setState id .closed).Spine root outer [] (Erasure.keep ⟨blocks, kept⟩ ts) := by
  obtain ⟨outer, ms, parent, kind, holds, said, inner, above⟩ := spine.setState .closed
  exact ⟨outer, parent, above.settle (.block kind holds.inside said .nil) (nested ms inner)⟩

/-- What the root holds: the settled nodes that say what is kept outside of all open blocks, and then at most
the node of an open block. -/
theorem Spine.outside {t : Tree} {root id : NodeId} {more : List NodeId} {e : Erasure} (spine : t.Spine root id more e)
    (opened : ∀ i ∈ more, ∃ tag attributes, t.kind? i = some (.block tag attributes .opened)) :
    t.kind? root = some .root ∧ ∃ more, t.Holds root e.kept more ∧
      ∀ i ∈ more, ∃ tag attributes, t.kind? i = some (.block tag attributes .opened) := by
  induction spine with
  | root kind _ holds => exact ⟨kind, _, holds, opened⟩
  | block _ kind _ _ _ _ ih =>
    refine ih fun i mem => ?_
    rw [List.mem_singleton.1 mem]
    exact ⟨_, _, kind⟩

end Tree

/-! ## Tokens -/

namespace Builder

/-- The open path of a builder holds what an erasure keeps. -/
def Tracks (b : Builder) (e : Erasure) : Prop := b.tree.Spine b.root b.current [] e

theorem tracks_start (source : Text) (tree : Tree) (blocks : BlockStack) : (start source tree blocks).Tracks {} := by
  have kind : tree.addRoot.kind? tree.size = some .root := by rw [Tree.kind?_addRoot, if_pos rfl]
  have parent : tree.addRoot.parent? tree.size = none := by
    rw [Tree.parent?_addRoot, Tree.parent?_of_size_le (Nat.le_refl _)]
  have children : tree.addRoot.children tree.size = [] := by
    rw [Tree.children_addRoot, Tree.children_of_size_le (Nat.le_refl _)]
  refine .root kind parent ⟨⟨[], [], children, .nil, .nil⟩, fun child mem => ?_⟩
  rw [show (start source tree blocks).root = tree.size from rfl,
    show (start source tree blocks).tree = tree.addRoot from rfl, children] at mem
  cases mem

/-- A token that becomes one settled node. -/
theorem tracks_add {b : Builder} {e : Erasure} (tracks : b.Tracks e) (kind : NodeKind) (offset : Nat) {t : Token}
    {m : Markup} (said : ∀ tree : Tree, ∀ id, tree.kind? id = some kind → tree.Says [id] [m])
    (nested : Nested [t] [m]) : (b.add kind offset).Tracks (e.keep [t]) :=
  Tree.Spine.append_settled tracks kind offset (said _ _ (Tree.kind?_append_new tracks.lt_size kind offset)) nested

theorem tracks_pushValue {b : Builder} {e : Erasure} (tracks : b.Tracks e) {t : Token} {tag : Tag} {raw : Text}
    (ordinary : t.isReserved = false) (fragment : t.fragment = .tag tag) (shape : tag.shape = .value raw) :
    (b.pushValue tag t.start).Tracks (e.keep [t]) := by
  have names : tag.name ≠ extendsTag ∧ tag.name ≠ parentTag := by
    simpa [Token.isReserved, fragment, shape] using ordinary
  rw [pushValue, if_neg names.1, if_neg names.2]
  exact tracks_add tracks _ t.start (fun _ _ kind => .value kind .nil) (.value ordinary fragment shape .nil)

/-- The node of an opening tag that is no definition. -/
theorem blockKind_of_ordinary {t : Token} {tag : Tag} {raw : Text} {selfClosing : Bool}
    (ordinary : t.isReserved = false) (fragment : t.fragment = .tag tag)
    (shape : tag.shape = .opening raw selfClosing) : blockKind tag = .block tag.name tag.attributes .opened := by
  have name : tag.name ≠ definitionTag := by simpa [Token.isReserved, fragment, shape] using ordinary
  rw [blockKind, if_neg name]

/-- A new block is the innermost open one, with nothing in it. -/
theorem spine_opened {t : Tree} {root id : NodeId} {e : Erasure} (spine : t.Spine root id [] e) {tag : Tag}
    {opening : Token} (opens : OpenBlock.Ordinary { opening, tag }) (offset : Nat) :
    (t.append id (.block tag.name tag.attributes .opened) offset).Spine root t.size []
      ⟨{ opening, tag } :: e.blocks, e.kept⟩ := by
  have inside := spine.lt_size
  have children : (t.append id (.block tag.name tag.attributes .opened) offset).children t.size = [] := by
    rw [Tree.children_append inside, if_neg (Nat.ne_of_gt inside), Tree.children_of_size_le (Nat.le_refl _)]
  refine .block opens (Tree.kind?_append_new inside _ offset) ?_ inside ⟨⟨[], [], children, .nil, .nil⟩, fun child mem => ?_⟩
    (spine.append _ offset)
  · rw [Tree.parent?_append inside, if_pos rfl]
  · rw [children] at mem
    cases mem

/-- Closing a node that is no definition only changes its state. -/
theorem close_of_block {b : Builder} {id : NodeId} {tag : Text} {attributes : Attributes} {state : BlockState}
    (kind : b.tree.kind? id = some (.block tag attributes state)) :
    b.close id = { b with tree := b.tree.setState id .closed } := by
  have closed : (b.tree.setState id .closed).kind? id = some (.block tag attributes .closed) := by
    rw [Tree.kind?_setState, if_pos rfl, kind]
    rfl
  rw [close, closed]

theorem tracks_openBlock {b : Builder} {e : Erasure} (tracks : b.Tracks e) {t : Token} {tag : Tag} {raw : Text}
    {selfClosing : Bool} (ordinary : t.isReserved = false) (fragment : t.fragment = .tag tag)
    (shape : tag.shape = .opening raw selfClosing) : (b.openBlock tag selfClosing t.start).Tracks (e.push t) := by
  have inside := tracks.lt_size
  have kind := blockKind_of_ordinary ordinary fragment shape
  have added : (b.add (blockKind tag) t.start).tree.kind? b.tree.size = some (.block tag.name tag.attributes .opened) :=
    kind ▸ Tree.kind?_append_new inside _ _
  cases selfClosing with
  | false =>
    have pushed : e.push t = ⟨{ opening := t, tag } :: e.blocks, e.kept⟩ := by
      rw [Erasure.push, fragment]
      simp only [shape]
    have opens : OpenBlock.Ordinary { opening := t, tag } := ⟨ordinary, fragment, raw, shape⟩
    have opened := spine_opened tracks opens t.start
    rw [← kind] at opened
    rw [pushed]
    exact opened
  | true =>
    have pushed : e.push t = e.keep [t] := by
      rw [Erasure.push, fragment]
      simp only [shape]
    have same := Tree.sameBut_setState (b.tree.append b.current (blockKind tag) t.start) b.tree.size .closed
    have spine := (Tree.Spine.append tracks (blockKind tag) t.start).of_sameBut same (.inr ⟨_, _, added⟩) inside
    have closed : ((b.tree.append b.current (blockKind tag) t.start).setState b.tree.size .closed).kind? b.tree.size
        = some (.block tag.name tag.attributes .closed) := by
      rw [Tree.kind?_setState, if_pos rfl, Tree.kind?_append_new inside, kind]
      rfl
    have empty : ((b.tree.append b.current (blockKind tag) t.start).setState b.tree.size .closed).children b.tree.size
        = [] := by
      rw [Tree.children_setState, Tree.children_append inside, if_neg (Nat.ne_of_gt inside),
        Tree.children_of_size_le (Nat.le_refl _)]
    rw [pushed]
    show ((b.add (blockKind tag) t.start).close b.tree.size).Tracks _
    rw [close_of_block added]
    refine spine.settle (.block closed (fun child mem => ?_) (empty ▸ .nil) .nil)
      (.selfClosing ordinary fragment shape .nil)
    rw [empty] at mem
    cases mem

/-! ## Closing tags -/

theorem openPath_cons {b : Builder} {id outer : Nat} (parent : b.tree.parent? id = some outer) (lt : outer < id) :
    b.tree.ancestors id = outer :: b.tree.ancestors outer := by
  rw [Tree.ancestors.eq_def, parent]
  exact if_pos lt

/-- The node of an open block. -/
theorem block_of_spine {t : Tree} {root id : NodeId} {more : List NodeId} {o : OpenBlock} {blocks : List OpenBlock}
    {kept : List Token} (spine : t.Spine root id more ⟨o :: blocks, kept⟩) :
    o.Ordinary ∧ t.kind? id = some (.block o.tag.name o.tag.attributes .opened) ∧ t.tag? id = some o.tag.name := by
  cases spine with
  | block opens kind _ _ _ _ =>
    refine ⟨opens, kind, ?_⟩
    rw [Tree.tag?, kind]
    rfl

/-- A closing tag of a name finds no node where no open block has the name. -/
theorem dropWhile_path_of_none {b : Builder} {root id : NodeId} {more : List NodeId} {e : Erasure} (name : Text)
    (spine : b.tree.Spine root id more e) (none : e.blocks.dropWhile (·.tag.name != name) = []) :
    (id :: b.tree.ancestors id).dropWhile (!b.closedBy name ·) = [] := by
  induction spine with
  | root kind parent _ =>
    rw [Tree.ancestors_of_none parent]
    simp [closedBy, Tree.tag?, kind, NodeKind.tag?]
  | @block id outer _ o blocks _ _ kind parent lt _ _ ih =>
    have name_ne : o.tag.name ≠ name := by
      intro same
      simp [same] at none
    have tag : b.tree.tag? id = some o.tag.name := by
      rw [Tree.tag?, kind]
      rfl
    rw [openPath_cons parent lt, List.dropWhile_cons_of_pos (by simpa [closedBy, tag] using name_ne)]
    apply ih
    rwa [List.dropWhile_cons_of_pos (by simpa using name_ne)] at none

/-- A closing tag of a name finds the node of the innermost open block of that name, and the nodes inside
of it are those of the blocks to be given up. -/
theorem spine_abandoned {root : NodeId} (name : Text) {o : OpenBlock} {outer : List OpenBlock} {kept : List Token}
    (blocks : List OpenBlock) (found : blocks.dropWhile (·.tag.name != name) = o :: outer) :
    ∀ (b : Builder) (id : NodeId), b.tree.Spine root id [] ⟨blocks, kept⟩ →
      ∃ matched path, (id :: b.tree.ancestors id).dropWhile (!b.closedBy name ·) = matched :: path ∧
        (((id :: b.tree.ancestors id).takeWhile (!b.closedBy name ·)).foldl abandon b).tree.Spine root matched []
          ⟨o :: outer, kept⟩ ∧
        Frame b (((id :: b.tree.ancestors id).takeWhile (!b.closedBy name ·)).foldl abandon b) := by
  induction blocks with
  | nil => cases found
  | cons first blocks ih =>
    intro b id spine
    obtain ⟨-, -, tag⟩ := block_of_spine spine
    by_cases same : first.tag.name = name
    · rw [List.dropWhile_cons_of_neg (by simp [same])] at found
      obtain ⟨rfl, rfl⟩ := List.cons.inj found
      have matches_ : b.closedBy name id = true := by simp [closedBy, tag, same]
      refine ⟨id, b.tree.ancestors id, List.dropWhile_cons_of_neg (by simp [matches_]), ?_⟩
      rw [List.takeWhile_cons_of_neg (by simp [matches_])]
      exact ⟨spine, .refl b⟩
    · rw [List.dropWhile_cons_of_pos (by simpa using same)] at found
      have passes : b.closedBy name id = false := by simp [closedBy, tag, same]
      obtain ⟨next, parent, above⟩ := spine.abandon
      have frame := frame_abandon b id
      have lt : next < id := by
        cases spine with
        | block _ _ parent' lt _ _ => exact Option.some.inj (parent.symm.trans parent') ▸ lt
      obtain ⟨matched, path, dropped, spine', frame'⟩ := ih found (b.abandon id) next above
      have closedBy : (b.abandon id).closedBy name = b.closedBy name := by
        funext i
        rw [Builder.closedBy, frame.tag, Builder.closedBy]
      rw [frame.ancestors, closedBy] at dropped spine' frame'
      rw [openPath_cons parent lt, List.dropWhile_cons_of_pos (by simp [passes]),
        List.takeWhile_cons_of_pos (by simp [passes]), List.foldl_cons]
      exact ⟨matched, path, dropped, spine', frame.trans frame'⟩

theorem tracks_closeBlock {b : Builder} {e : Erasure} (tracks : b.Tracks e) {t : Token} {tag : Tag}
    (fragment : t.fragment = .tag tag) (shape : tag.shape = .closing) :
    (b.closeBlock tag.name t.start).Tracks (e.closeBlock tag.name t) := by
  unfold Erasure.closeBlock
  cases found : e.blocks.dropWhile (·.tag.name != tag.name) with
  | nil =>
    have unmatched := dropWhile_path_of_none tag.name tracks found
    rw [closeBlock, openPath, unmatched]
    exact tracks
  | cons o outer =>
    obtain ⟨matched, path, dropped, spine, frame⟩ := spine_abandoned tag.name e.blocks found b b.current tracks
    have name : o.tag.name = tag.name := by
      have first := List.head?_dropWhile_not (·.tag.name != tag.name) e.blocks
      rw [found] at first
      simpa using first
    obtain ⟨opens, kind, -⟩ := block_of_spine spine
    obtain ⟨next, parent, closed⟩ := spine.close fun ms inside => opens.nested fragment shape name.symm inside
    unfold closeBlock
    rw [openPath, dropped]
    dsimp only
    rw [close_of_block kind]
    dsimp only
    rw [Tree.parent?_setState, parent, Option.getD_some]
    have root := frame.root
    unfold Tracks
    dsimp only
    rw [root]
    exact closed

/-- **Every token keeps arena and erasure together.** -/
theorem tracks_push {b : Builder} {e : Erasure} (tracks : b.Tracks e) {t : Token} (ordinary : t.isReserved = false) :
    (b.push t).Tracks (e.push t) := by
  cases fragment : t.fragment with
  | text x =>
    simp only [push, Erasure.push, fragment]
    exact tracks_add tracks _ t.start (fun _ _ kind => .text kind .nil) (.text fragment .nil)
  | tag tag =>
    cases shape : tag.shape with
    | value raw =>
      simp only [push, Erasure.push, fragment, shape]
      exact tracks_pushValue tracks ordinary fragment shape
    | opening raw selfClosing =>
      have pushed := tracks_openBlock tracks ordinary fragment shape
      rw [push, fragment]
      simp only [shape]
      exact pushed
    | closing =>
      simp only [push, Erasure.push, fragment, shape]
      exact tracks_closeBlock tracks fragment shape

theorem tracks_foldl_push (ts : List Token) (ordinary : ∀ t ∈ ts, t.isReserved = false) :
    ∀ (b : Builder) (e : Erasure), b.Tracks e → (ts.foldl push b).Tracks (ts.foldl Erasure.push e) := by
  induction ts with
  | nil => exact fun _ _ tracks => tracks
  | cons t ts ih =>
    intro b e tracks
    exact ih (fun t mem => ordinary t (List.mem_cons_of_mem _ mem)) _ _
      (tracks_push tracks (ordinary t (List.mem_cons_self ..)))

/-! ## No faults -/

/-- A closing tag of the innermost open block is no fault. -/
theorem diagnostics_closeBlock {b : Builder} {name : Text} (innermost : b.tree.tag? b.current = some name)
    (offset : Nat) : (b.closeBlock name offset).diagnostics = b.diagnostics := by
  have closes : b.closedBy name b.current = true := by simp [closedBy, innermost]
  unfold closeBlock
  rw [openPath, List.dropWhile_cons_of_neg (by simp [closes]), List.takeWhile_cons_of_neg (by simp [closes])]
  exact diagnostics_close ..

/-- Well-nested tokens are taken without a fault. -/
theorem diagnostics_of_nested {ts : List Token} {ms : List Markup} (nested : Nested ts ms) :
    ∀ (b : Builder) (e : Erasure), b.Tracks e → (ts.foldl push b).diagnostics = b.diagnostics := by
  induction nested with
  | nil => exact fun _ _ _ => rfl
  | @text t x _ _ fragment rest ih =>
    intro b e tracks
    have ordinary : t.isReserved = false := by rw [Token.isReserved, fragment]
    refine (ih _ _ (tracks_push tracks ordinary)).trans ?_
    rw [push, fragment]
    rfl
  | @value t tag raw _ _ ordinary fragment shape rest ih =>
    intro b e tracks
    refine (ih _ _ (tracks_push tracks ordinary)).trans ?_
    simp only [push, fragment, shape]
    exact diagnostics_pushValue ..
  | @selfClosing t tag raw _ _ ordinary fragment shape rest ih =>
    intro b e tracks
    refine (ih _ _ (tracks_push tracks ordinary)).trans ?_
    simp only [push, fragment, shape]
    exact diagnostics_openBlock ..
  | @block t t' tag tag' raw inner ts _ _ ordinary fragment shape closes shape' same inside rest ih_inner ih =>
    intro b e tracks
    have opened := tracks_push tracks ordinary
    have filled := tracks_foldl_push inner inside.ordinary _ _ opened
    have ordinary' := Token.isReserved_closing ordinary fragment shape closes shape' same
    rw [List.foldl_cons, List.foldl_append, List.foldl_cons, ih _ _ (tracks_push filled ordinary')]
    -- The tokens in between are kept in the block, so it is the innermost open one again.
    have innermost : (inner.foldl push (b.push t)).tree.tag? (inner.foldl push (b.push t)).current = some tag.name := by
      have pushed : e.push t = ⟨{ opening := t, tag } :: e.blocks, e.kept⟩ := by
        rw [Erasure.push, fragment]
        simp only [shape]
      rw [inside.foldl_push, pushed, Erasure.keep] at filled
      exact (block_of_spine filled).2.2
    have taken : (inner.foldl push (b.push t)).push t' = (inner.foldl push (b.push t)).closeBlock tag.name t'.start := by
      simp only [push, closes, shape', same]
    rw [taken, diagnostics_closeBlock innermost, ih_inner _ _ opened]
    simp only [push, fragment, shape]
    exact diagnostics_openBlock ..

end Builder

end TagTemplate
