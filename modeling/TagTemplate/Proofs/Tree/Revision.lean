/-
# Proofs.Tree.Revision -- what a file contributes to others survives edits around it

The bodies of a file come from its block definitions.  What stands outside of those that
close can be edited freely, as long as no definition and no `extends` tag is involved: a
passage of properly nested tokens of the other kinds may be put in, taken out, or replaced
by another one (`Builder.Edited`).

An edit changes every later index and offset, and what the blocks around it say.  These
are blocks that never become a body, so the sketch of the edited file differs in the
layers around the edit alone, and there only in what they say (`Sketch.Revised`).  Every
token of the rest keeps this, whichever blocks it opens, closes or gives up; so the
bodies say the same at the end (`Edited.bodies`).
-/
import TagTemplate.Proofs.Chain.Walk
import TagTemplate.Proofs.Tree.Sketch

namespace TagTemplate

set_option autoImplicit false

/-! ## Edits -/

/-- Whether a token may be put in or taken out: it neither opens a block definition nor extends a template. -/
def Token.isOrdinary (t : Token) : Bool :=
  match t.fragment with
  | .text _ => true
  | .tag tag =>
    match tag.shape with
    | .value _ => tag.name != extendsTag
    | .opening .. => tag.name != definitionTag
    | .closing => true

/-- Text, value tags and whole blocks, properly nested, with no block definition and no `extends` tag among them. -/
structure Passage (p : List Token) : Prop where
  balanced : Balanced p
  ordinary : ∀ t ∈ p, t.isOrdinary = true

instance (p : List Token) : Decidable (Passage p) :=
  decidable_of_iff (Balanced p ∧ ∀ t ∈ p, t.isOrdinary = true) ⟨fun h => ⟨h.1, h.2⟩, fun h => ⟨h.1, h.2⟩⟩

/-- From where a builder stands on, tokens are edited: some passages are replaced by others, each at a place where no
open block will close as a definition.  Other tokens keep what they hold; their spans do not matter. -/
inductive Builder.Edited : Builder → List Token → List Token → Prop where
  | nil {b : Builder} : Edited b [] []
  | keep {b : Builder} {t t' : Token} {ts ts' : List Token} (fragment : t'.fragment = t.fragment)
      (rest : Edited (b.push t) ts ts') : Edited b (t :: ts) (t' :: ts')
  | replace {b : Builder} {p p' ts ts' : List Token} (old : Passage p) (new : Passage p')
      (outside : ∀ id ∈ b.openPath, ((p ++ ts).foldl push b).tree.closedName? id = none)
      (rest : Edited (p.foldl push b) ts ts') : Edited b (p ++ ts) (p' ++ ts')

namespace Builder.Edited

/-- Tokens that hold the same are no edit. -/
theorem of_fragments (ts : List Token) : ∀ (b : Builder) (ts' : List Token),
    ts'.map (·.fragment) = ts.map (·.fragment) → b.Edited ts ts' := by
  induction ts with
  | nil =>
    intro b ts' same
    obtain rfl := List.map_eq_nil_iff.1 same
    exact .nil
  | cons t ts ih =>
    intro b ts' same
    obtain ⟨t', ts', rfl, fragment, rest⟩ := List.map_eq_cons_iff.1 same
    exact .keep fragment (ih _ ts' rest)

/-- One passage is replaced, and the tokens in front of it and behind it hold the same. -/
theorem of_passage (front : List Token) : ∀ {b : Builder} {front' p p' back back' : List Token},
    front'.map (·.fragment) = front.map (·.fragment) → Passage p → Passage p' →
      back'.map (·.fragment) = back.map (·.fragment) →
      (∀ id ∈ (front.foldl push b).openPath, ((front ++ (p ++ back)).foldl push b).tree.closedName? id = none) →
      b.Edited (front ++ (p ++ back)) (front' ++ (p' ++ back')) := by
  induction front with
  | nil =>
    intro b front' p p' back back' same old new after outside
    obtain rfl := List.map_eq_nil_iff.1 same
    show b.Edited (p ++ back) (p' ++ back')
    exact .replace old new outside (.of_fragments back _ back' after)
  | cons t front ih =>
    intro b front' p p' back back' same old new after outside
    obtain ⟨t', front', rfl, fragment, rest⟩ := List.map_eq_cons_iff.1 same
    exact .keep fragment (ih rest old new after outside)

/-- Behind the first `n` tokens, `m` are replaced by `m'` others. -/
theorem of_take_drop {b : Builder} {ts ts' : List Token} (n m m' : Nat)
    (front : (ts'.take n).map (·.fragment) = (ts.take n).map (·.fragment)) (old : Passage ((ts.drop n).take m))
    (new : Passage ((ts'.drop n).take m'))
    (back : ((ts'.drop n).drop m').map (·.fragment) = ((ts.drop n).drop m).map (·.fragment))
    (outside : ∀ id ∈ ((ts.take n).foldl push b).openPath, (ts.foldl push b).tree.closedName? id = none) :
    b.Edited ts ts' := by
  have edited := @of_passage (ts.take n) b _ _ _ _ _ front old new back
  simp only [List.take_append_drop] at edited
  exact edited outside

end Builder.Edited

/-! ## What a passage says -/

namespace Sketch

theorem push_of_fragment {t t' : Token} (fragment : t'.fragment = t.fragment) (k : Sketch) : k.push t' = k.push t := by
  rw [push, push, fragment]

/-- A sketch after further children of its innermost layer. -/
def Grown (k k' : Sketch) : Prop :=
  ∀ l around, k.layers = l :: around →
    (∃ more, k'.layers = { l with said := l.said ++ more } :: around) ∧ k'.bodies = k.bodies

theorem Grown.refl (k : Sketch) : k.Grown k := by
  intro l around layers
  refine ⟨⟨[], ?_⟩, rfl⟩
  rw [layers, List.append_nil]

theorem Grown.trans {k₁ k₂ k₃ : Sketch} (one : k₁.Grown k₂) (two : k₂.Grown k₃) : k₁.Grown k₃ := by
  intro l around layers
  obtain ⟨⟨more, layers₂⟩, bodies₂⟩ := one l around layers
  obtain ⟨⟨more', layers₃⟩, bodies₃⟩ := two _ around layers₂
  refine ⟨⟨more ++ more', ?_⟩, bodies₃.trans bodies₂⟩
  rw [layers₃, List.append_assoc]

theorem grown_say (k : Sketch) (m : Markup) : k.Grown (k.say m) := by
  intro l around layers
  refine ⟨⟨[m], ?_⟩, rfl⟩
  rw [say, layers]
  rfl

/-- A block that is no definition and closes where it opened is one further child there. -/
theorem grown_close {k k' : Sketch} {l : Layer} (ordinary : ∀ n attributes state, l.kind ≠ .definition n attributes state)
    (opened : ∀ outer around, k.layers = outer :: around →
      k'.layers = outer.saying (.group []) :: around ∧ k'.bodies = k.bodies) : k.Grown (k'.close l k'.layers) := by
  intro outer around layers
  obtain ⟨layers', bodies⟩ := opened outer around layers
  refine ⟨⟨[l.closed], ?_⟩, ?_⟩
  · simp [close, layers', Layer.correcting, Layer.saying]
  · funext name
    show k'.bodies name ++ l.bodyOf name = _
    rw [Layer.bodyOf_of_other ordinary, List.append_nil, bodies]

theorem blockKind_ne_definition {tag : Tag} (ordinary : tag.name ≠ definitionTag) (n : Text) (attributes : Attributes)
    (state : BlockState) : Builder.blockKind tag ≠ .definition n attributes state := by
  rw [Builder.blockKind, if_neg ordinary]
  intro same
  cases same

/-- An ordinary token that neither opens nor closes a block is one further child, or nothing. -/
theorem grown_plain (k : Sketch) {t : Token} (opens : t.opens? = none) (closes : t.closes? = none)
    (ordinary : t.isOrdinary = true) : k.Grown (k.push t) := by
  unfold push
  unfold Token.opens? at opens
  unfold Token.closes? at closes
  unfold Token.isOrdinary at ordinary
  cases fragment : t.fragment with
  | text x => exact k.grown_say _
  | tag tag =>
    simp only [fragment] at opens closes ordinary ⊢
    cases shape : tag.shape with
    | value raw =>
      rw [shape, bne_iff_ne] at ordinary
      dsimp only
      rw [pushValue, if_neg ordinary]
      split
      · exact k.grown_say _
      · exact k.grown_say _
    | opening raw selfClosing =>
      rw [shape, bne_iff_ne] at ordinary
      cases selfClosing with
      | true =>
        refine grown_close (blockKind_ne_definition ordinary) fun outer around layers => ⟨?_, rfl⟩
        rw [say, layers]
        rfl
      | false =>
        rw [shape] at opens
        cases opens
    | closing =>
      rw [if_pos shape] at closes
      cases closes

/-- An ordinary tag that opens a block puts a layer of its name on top of the others. -/
theorem push_of_opens? (k : Sketch) {t : Token} {name : Text} (opens : t.opens? = some name)
    (ordinary : t.isOrdinary = true) :
    ∃ l : Layer, l.kind.tag? = some name ∧ (∀ n attributes state, l.kind ≠ .definition n attributes state) ∧
      (k.push t).layers = l :: (k.say (.group [])).layers ∧ (k.push t).bodies = k.bodies := by
  obtain ⟨tag, raw, fragment, shape, rfl⟩ := Token.exists_of_opens? opens
  simp only [Token.isOrdinary, fragment, shape, bne_iff_ne] at ordinary
  simp only [push, fragment, shape]
  refine ⟨⟨k.next, Builder.blockKind tag, []⟩, ?_, blockKind_ne_definition ordinary, rfl, rfl⟩
  rw [Builder.blockKind, if_neg ordinary]
  rfl

theorem push_of_closes? (k : Sketch) {t : Token} {name : Text} (closes : t.closes? = some name) :
    k.push t = k.closeBlock name := by
  obtain ⟨tag, fragment, shape, rfl⟩ := Token.exists_of_closes? closes
  simp only [push, fragment, shape]

/-- A block around tokens that only add children to it. -/
theorem grown_block (k : Sketch) {t t' : Token} {name : Text} {inner : List Token} (opens : t.opens? = some name)
    (ordinary : t.isOrdinary = true) (inside : ∀ k : Sketch, k.Grown (inner.foldl push k))
    (closes : t'.closes? = some name) : k.Grown ((inner.foldl push (k.push t)).push t') := by
  obtain ⟨l, tag, notDefinition, layers, bodies⟩ := k.push_of_opens? opens ordinary
  obtain ⟨⟨more, layers'⟩, bodies'⟩ := inside (k.push t) l _ layers
  rw [push_of_closes? _ closes, closeBlock, layers', List.dropWhile_cons_of_neg (by simp [tag])]
  generalize inner.foldl push (k.push t) = filled at layers' bodies' ⊢
  dsimp only
  have closed : k.Grown ({ filled with layers := (k.say (.group [])).layers }.close { l with said := l.said ++ more }
      (k.say (.group [])).layers) := by
    refine grown_close notDefinition fun outer around layers => ⟨?_, bodies'.trans bodies⟩
    show (k.say (.group [])).layers = _
    rw [say, layers]
    rfl
  exact closed

end Sketch

/-- **A passage only adds children** to the innermost open block: it files no body and leaves no block open. -/
theorem Passage.grown {p : List Token} (passage : Passage p) (k : Sketch) : k.Grown (p.foldl Sketch.push k) := by
  obtain ⟨balanced, ordinary⟩ := passage
  induction balanced generalizing k with
  | nil => exact .refl k
  | plain opens closes _ ih =>
    have first := k.grown_plain opens closes (ordinary _ (List.mem_cons_self ..))
    exact first.trans (ih _ fun t mem => ordinary t (List.mem_cons_of_mem _ mem))
  | @block t t' name inner ts opens _ closes _ ih_inner ih =>
    rw [List.foldl_cons, List.foldl_append, List.foldl_cons]
    have inside : ∀ k : Sketch, k.Grown (inner.foldl Sketch.push k) := by
      intro k
      apply ih_inner
      intro t mem
      exact ordinary t (List.mem_cons_of_mem _ (List.mem_append_left _ mem))
    have first := k.grown_block opens (ordinary t (List.mem_cons_self ..)) inside closes
    refine first.trans (ih _ fun t mem => ?_)
    exact ordinary t (List.mem_cons_of_mem _ (List.mem_append_right _ (List.mem_cons_of_mem _ mem)))

/-! ## A sketch and its revision -/

/-- Layers that are the same but for their indices, up to those around an edit; from there on only what the layers
are is the same, and none of them closes as a definition in the arena that the tokens come to. -/
inductive Layers (final : Tree) : List Layer → List Layer → Prop where
  | strewn {ls ls' : List Layer} (kinds : ls'.map Layer.kind = ls.map Layer.kind)
      (outside : ∀ l ∈ ls, final.closedName? l.id = none) : Layers final ls ls'
  | clean {l l' : Layer} {ls ls' : List Layer} (kind : l'.kind = l.kind) (said : l'.said = l.said)
      (rest : Layers final ls ls') : Layers final (l :: ls) (l' :: ls')

namespace Layers

variable {final : Tree} {l l' : Layer} {ls ls' : List Layer}

theorem kinds (layers : Layers final ls ls') : ls'.map Layer.kind = ls.map Layer.kind := by
  induction layers with
  | strewn kinds _ => exact kinds
  | clean kind _ _ ih => rw [List.map_cons, List.map_cons, kind, ih]

/-- Around an edit, what the innermost layer says may change in any way. -/
theorem strewn_modifyHead (kinds : ls'.map Layer.kind = ls.map Layer.kind)
    (outside : ∀ l ∈ ls, final.closedName? l.id = none) {f f' : Layer → Layer} (id : ∀ l, (f l).id = l.id)
    (kind : ∀ l, (f l).kind = l.kind) (kind' : ∀ l, (f' l).kind = l.kind) :
    Layers final (ls.modifyHead f) (ls'.modifyHead f') := by
  have same {f : Layer → Layer} (kind : ∀ l, (f l).kind = l.kind) (ls : List Layer) :
      (ls.modifyHead f).map Layer.kind = ls.map Layer.kind := by
    cases ls with
    | nil => rfl
    | cons l ls => exact congrArg (· :: _) (kind l)
  refine .strewn (by rw [same kind, same kind', kinds]) fun l mem => ?_
  cases ls with
  | nil => cases mem
  | cons l ls =>
    rw [List.modifyHead_cons] at mem
    rcases List.mem_cons.1 mem with rfl | mem
    · rw [id]
      exact outside l (List.mem_cons_self ..)
    · exact outside _ (List.mem_cons_of_mem _ mem)

/-- The same change of what the innermost layer says. -/
theorem modifyHead (layers : Layers final ls ls') {f : Layer → Layer} (id : ∀ l, (f l).id = l.id)
    (kind : ∀ l, (f l).kind = l.kind) (said : ∀ l l' : Layer, l'.said = l.said → (f l').said = (f l).said) :
    Layers final (ls.modifyHead f) (ls'.modifyHead f) := by
  cases layers with
  | strewn kinds outside => exact strewn_modifyHead kinds outside id kind kind
  | @clean l l' ls ls' kind' said' rest =>
    refine .clean ?_ (said l l' said') rest
    rw [kind, kind, kind']

/-- Going out to the first layer of a kind finds the same one in both. -/
theorem dropWhile (layers : Layers final ls ls') (p : NodeKind → Bool) :
    Layers final (ls.dropWhile fun l => p l.kind) (ls'.dropWhile fun l => p l.kind) := by
  induction layers with
  | @strewn ls ls' kinds outside =>
    refine .strewn ?_ fun l mem => outside l ((List.dropWhile_sublist _).subset mem)
    have dropped (ls : List Layer) : (ls.dropWhile fun l => p l.kind).map Layer.kind = (ls.map Layer.kind).dropWhile p := by
      rw [List.dropWhile_map]
      rfl
    rw [dropped, dropped, kinds]
  | @clean l l' ls ls' kind said rest ih =>
    rw [List.dropWhile_cons, List.dropWhile_cons, kind]
    split
    · exact ih
    · exact .clean kind said rest

end Layers

namespace Sketch

/-- A sketch and that of an edited file: the bodies say the same, and the layers do up to those around an edit. -/
structure Revised (final : Tree) (k k' : Sketch) : Prop where
  layers : Layers final k.layers k'.layers
  bodies : k'.bodies = k.bodies

variable {final : Tree} {k k' : Sketch}

theorem Revised.say (revised : Revised final k k') (m : Markup) : Revised final (k.say m) (k'.say m) := by
  refine ⟨revised.layers.modifyHead (fun _ => rfl) (fun _ => rfl) fun l l' same => ?_, revised.bodies⟩
  show l'.said ++ [m] = l.said ++ [m]
  rw [same]

/-- The same block closes in both. -/
theorem Revised.close_clean (revised : Revised final k k') {l l' : Layer} {ls ls' : List Layer} (kind : l'.kind = l.kind)
    (said : l'.said = l.said) (rest : Layers final ls ls') : Revised final (k.close l ls) (k'.close l' ls') := by
  have closed : l'.closed = l.closed := by rw [Layer.closed, Layer.closed, kind, said]
  have body : l'.bodyOf = l.bodyOf := by
    funext name
    rw [Layer.bodyOf, Layer.bodyOf, kind, said]
  constructor
  · show Layers final (ls.modifyHead (·.correcting l.closed)) (ls'.modifyHead (·.correcting l'.closed))
    rw [closed]
    refine rest.modifyHead (fun _ => rfl) (fun _ => rfl) fun l l' same => ?_
    show l'.said.dropLast ++ _ = l.said.dropLast ++ _
    rw [same]
  · funext name
    show k'.bodies name ++ l'.bodyOf name = k.bodies name ++ l.bodyOf name
    rw [revised.bodies, body]

/-- The innermost layer closes in both; if it is a definition, there is no edit inside of it. -/
theorem Revised.close (revised : Revised final k k') {l l' : Layer} {ls ls' : List Layer}
    (layers : Layers final (l :: ls) (l' :: ls'))
    (closes : ∀ n attributes state, l.kind = .definition n attributes state → final.closedName? l.id ≠ none) :
    Revised final (k.close l ls) (k'.close l' ls') := by
  cases layers with
  | clean kind said rest => exact revised.close_clean kind said rest
  | strewn kinds outside =>
    obtain ⟨kind, kinds⟩ := List.cons.inj kinds
    have ordinary : ∀ n attributes state, l.kind ≠ .definition n attributes state := by
      intro n attributes state eq
      exact closes n attributes state eq (outside l (List.mem_cons_self ..))
    have ordinary' : ∀ n attributes state, l'.kind ≠ .definition n attributes state := by
      rw [kind]
      exact ordinary
    constructor
    · exact Layers.strewn_modifyHead kinds (fun l mem => outside l (List.mem_cons_of_mem _ mem)) (fun _ => rfl)
        (fun _ => rfl) fun _ => rfl
    · funext name
      show k'.bodies name ++ l'.bodyOf name = k.bodies name ++ l.bodyOf name
      rw [revised.bodies, Layer.bodyOf_of_other ordinary, Layer.bodyOf_of_other ordinary']

/-- The same opening tag; its block is new in both. -/
theorem Revised.openBlock (revised : Revised final k k') (tag : Tag) (selfClosing : Bool) :
    Revised final (k.openBlock tag selfClosing) (k'.openBlock tag selfClosing) := by
  have said := revised.say (.group [])
  cases selfClosing with
  | false => exact ⟨.clean rfl rfl said.layers, revised.bodies⟩
  | true => exact said.close_clean rfl rfl said.layers

theorem Revised.closeBlock (revised : Revised final k k') (name : Text)
    (closes : ∀ l around, k.layers.dropWhile (·.kind.tag? != some name) = l :: around →
      ∀ n attributes state, l.kind = .definition n attributes state → final.closedName? l.id ≠ none) :
    Revised final (k.closeBlock name) (k'.closeBlock name) := by
  have layers := revised.layers.dropWhile (·.tag? != some name)
  unfold Sketch.closeBlock
  generalize found : (k.layers.dropWhile (·.kind.tag? != some name)) = ls at layers
  generalize (k'.layers.dropWhile (·.kind.tag? != some name)) = ls' at layers ⊢
  have same := congrArg List.length layers.kinds
  rw [List.length_map, List.length_map] at same
  cases ls with
  | nil =>
    obtain rfl := List.eq_nil_of_length_eq_zero same
    exact revised
  | cons l ls =>
    cases ls' with
    | nil => cases same
    | cons l' ls' => exact revised.close layers (closes l ls found)

theorem Revised.pushValue (revised : Revised final k k') (tag : Tag) :
    Revised final (k.pushValue tag) (k'.pushValue tag) := by
  unfold Sketch.pushValue
  split
  · exact revised
  · split
    · exact revised.say _
    · exact revised.say _

/-- **The same token keeps a sketch and its revision together.**  A definition that closes stays closed, so no edit
is inside of it. -/
theorem Revised.push {b : Builder} (draws : b.Draws k) (revised : Revised final k k') (t : Token)
    (settled : (b.push t).tree.Settled final) : Revised final (k.push t) (k'.push t) := by
  unfold Builder.push at settled
  unfold Sketch.push
  cases fragment : t.fragment with
  | text x => exact revised.say _
  | tag tag =>
    rw [fragment] at settled
    dsimp only at settled ⊢
    cases shape : tag.shape with
    | value raw => exact revised.pushValue tag
    | opening raw selfClosing => exact revised.openBlock tag selfClosing
    | closing =>
      rw [shape] at settled
      refine revised.closeBlock tag.name fun l around found n attributes state kind => ?_
      rcases draws.meets tag.name t.start with ⟨-, none⟩ | ⟨inner, l', outer, around', meets⟩
      · rw [none] at found
        cases found
      · obtain rfl := (List.cons.inj (meets.layers.symm.trans found)).1
        rw [settled.closed l'.id n (meets.closedName? kind)]
        nofun

end Sketch

/-! ## A file and its revision -/

namespace Builder

variable {b : Builder} {closings : List NodeId}

theorem settled_foldl_push (tokens : List Token) : ∀ {b : Builder} {closings : List NodeId}, b.Sound →
    b.tree.Accounts b.blocks closings → b.tree.Settled (tokens.foldl push b).tree ∧
      ∃ all, (tokens.foldl push b).tree.Accounts (tokens.foldl push b).blocks all := by
  induction tokens with
  | nil => exact fun _ accounts => ⟨.refl _, _, accounts⟩
  | cons t tokens ih =>
    intro b closings sound accounts
    obtain ⟨new, advances⟩ := advances_push sound accounts t
    obtain ⟨settled, accounts'⟩ := ih (sound_push sound t) advances.accounts
    exact ⟨advances.settled.trans settled, accounts'⟩

/-- **The bodies survive edits**: whatever the rest of the tokens does, they say the same at the end. -/
theorem Edited.bodies {ts ts' : List Token} (edited : b.Edited ts ts') :
    ∀ {k k' : Sketch} {closings : List NodeId}, b.Draws k → b.tree.Accounts b.blocks closings →
      Sketch.Revised (ts.foldl push b).tree k k' →
      (ts'.foldl Sketch.push k').bodies = (ts.foldl Sketch.push k).bodies := by
  induction edited with
  | nil => exact fun _ _ revised => revised.bodies
  | @keep b t t' ts ts' fragment rest ih =>
    intro k k' closings draws accounts revised
    obtain ⟨new, advances⟩ := advances_push draws.sound accounts t
    have settled := (settled_foldl_push ts (sound_push draws.sound t) advances.accounts).1
    have next := revised.push draws t settled
    rw [List.foldl_cons, List.foldl_cons, Sketch.push_of_fragment fragment]
    exact ih (draws.push t) advances.accounts next
  | @replace b p p' ts ts' old new outside rest ih =>
    intro k k' closings draws accounts revised
    obtain ⟨-, all, accounts'⟩ := settled_foldl_push p draws.sound accounts
    rw [List.foldl_append, List.foldl_append]
    rw [List.foldl_append] at revised outside
    apply ih (draws.foldl_push p) accounts'
    obtain ⟨l, around, layers, -, -⟩ := draws.current
    obtain ⟨⟨more, grown⟩, bodies⟩ := old.grown k l around layers
    have kinds := revised.layers.kinds
    rw [layers, List.map_cons] at kinds
    obtain ⟨l', around', layers', kind, kinds⟩ := List.map_eq_cons_iff.1 kinds
    obtain ⟨⟨more', grown'⟩, bodies'⟩ := new.grown k' l' around' layers'
    refine ⟨?_, ?_⟩
    · rw [grown, grown']
      refine .strewn (by rw [List.map_cons, List.map_cons, kind, kinds]) fun outer mem => outside outer.id ?_
      rw [draws.path, layers]
      rcases List.mem_cons.1 mem with rfl | mem
      · exact List.mem_cons_self ..
      · exact List.mem_cons_of_mem _ (List.mem_map_of_mem mem)
    · rw [bodies, bodies', revised.bodies]

end Builder

theorem Token.parent?_of_isOrdinary {t : Token} (ordinary : t.isOrdinary = true) : t.parent? = none := by
  unfold Token.isOrdinary at ordinary
  unfold Token.parent?
  split
  · rfl
  · rename_i tag fragment
    rw [fragment] at ordinary
    dsimp only at ordinary
    split
    · rename_i raw shape
      rw [shape, bne_iff_ne] at ordinary
      exact if_neg ordinary
    · rfl

theorem Passage.parent? {p : List Token} (passage : Passage p) : p.findSome? Token.parent? = none :=
  List.findSome?_eq_none_iff.2 fun t mem => Token.parent?_of_isOrdinary (passage.ordinary t mem)

/-- An edit neither names another template to extend nor takes such a name away. -/
theorem Builder.Edited.parent? {b : Builder} {ts ts' : List Token} (edited : b.Edited ts ts') :
    ts'.findSome? Token.parent? = ts.findSome? Token.parent? := by
  induction edited with
  | nil => rfl
  | keep fragment _ ih =>
    rw [List.findSome?_cons, List.findSome?_cons, ih, Token.parent?, fragment, Token.parent?]
  | replace old new _ _ ih =>
    rw [List.findSome?_append, List.findSome?_append, old.parent?, new.parent?, ih]

/-- **A file and its revision contribute the same**: their bodies say the same. -/
theorem Tree.like_of_edited {source source' : Text} {ts ts' : List Token}
    (edited : (Builder.start source {} {}).Edited ts ts') :
    (build ts source {} {}).blocks.Like (build ts source {} {}).tree (build ts' source' {} {}).tree
      (build ts' source' {} {}).blocks := by
  have start : Sketch.Revised (ts.foldl Builder.push (Builder.start source {} {})).tree {} {} :=
    ⟨.clean rfl rfl (.strewn rfl fun _ mem => absurd mem List.not_mem_nil), rfl⟩
  have same := edited.bodies (Builder.draws_start source) filed_empty.accounts.addRoot start
  constructor
  · intro name
    rw [(gathered_build ts source Chain.gathered_empty).cursor, (gathered_build ts' source' Chain.gathered_empty).cursor]
  · intro name
    rw [(drawn_build ts source).bodies, (drawn_build ts' source').bodies, same]

end TagTemplate
