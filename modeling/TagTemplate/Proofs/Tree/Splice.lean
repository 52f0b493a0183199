/-
# Proofs.Tree.Splice -- definitions with their bodies in place

Where tags nest and no template is extended, a definition has one body, which stands where
the definition does.  What such tokens say can then be told in three ways: with the name of
each definition in its place, as the bodies of those names, and with each body in the place
of its definition (`Spliced`).  The third is what the tokens say without the tags of the
definitions.

`Tells` keeps the three together along a sequence of tokens.  Building the tokens draws the
first two, and the tokens without the tags of definitions are well nested and write the
third.  Every balanced sequence is put together from single tokens and pairs of tags, so
there is one lemma for each of these (`exists_tells`).
-/
import TagTemplate.Proofs.Tree.Recovery
import TagTemplate.Proofs.Tree.Revision

namespace TagTemplate

set_option autoImplicit false

/-! ## Tags of definitions -/

namespace Tag

def defined (tag : Tag) : Text := (tag.attributes.get? "name".toList).getD []

def saidAround (tag : Tag) (content : List Markup) : Markup :=
  if tag.name = definitionTag then .definition tag.defined else .block tag.name tag.attributes content

def bodyAround (tag : Tag) (content : List Markup) : List (Text × List Markup) :=
  if tag.name = definitionTag then [(tag.defined, content)] else []

/-- What is left of the block of a tag if tags of definitions are left out. -/
def plainAround (tag : Tag) (content : List Markup) : List Markup :=
  if tag.name = definitionTag then content else [.block tag.name tag.attributes content]

end Tag

def Fragment.delimits : Fragment → Bool
  | .text _ => false
  | .tag t =>
    match t.shape with
    | .value _ => false
    | _ => t.name == definitionTag

namespace Token

/-- A token that holds such a tag. -/
def delimits (t : Token) : Bool := t.fragment.delimits

/-- One of the value tags by which a template takes part in inheritance. -/
def inherits (t : Token) : Bool :=
  match t.fragment with
  | .text _ => false
  | .tag tag =>
    match tag.shape with
    | .value _ => tag.name == extendsTag || tag.name == parentTag
    | _ => false

def defines? (t : Token) : Option Text :=
  match t.fragment with
  | .text _ => none
  | .tag tag =>
    match tag.shape with
    | .opening .. => if tag.name = definitionTag then some tag.defined else none
    | _ => none

theorem isReserved_eq (t : Token) : t.isReserved = (t.delimits || t.inherits) := by
  unfold isReserved delimits Fragment.delimits inherits
  cases t.fragment with
  | text x => rfl
  | tag tag => cases shape : tag.shape <;> simp [shape]

end Token

def withoutDefinitions (tokens : List Token) : List Token := tokens.filter fun t => !t.delimits

theorem withoutDefinitions_append (ts ts' : List Token) :
    withoutDefinitions (ts ++ ts') = withoutDefinitions ts ++ withoutDefinitions ts' := List.filter_append ..

/-! ## Markup with definitions -/

/-- Markup with definitions in it, the bodies of their names, and the markup with each body in the place of its
definition. -/
inductive Spliced : List Markup → List (Text × List Markup) → List Markup → Prop where
  | nil : Spliced [] [] []
  | text {said plain : List Markup} {bodies : List (Text × List Markup)} (x : Text) (rest : Spliced said bodies plain) :
      Spliced (.text x :: said) bodies (.text x :: plain)
  | value {said plain : List Markup} {bodies : List (Text × List Markup)} (tag : Text) (attributes : Attributes)
      (raw : Text) (rest : Spliced said bodies plain) :
      Spliced (.value tag attributes raw :: said) bodies (.value tag attributes raw :: plain)
  | block {content inner said plain : List Markup} {within bodies : List (Text × List Markup)} (tag : Text)
      (attributes : Attributes) (inside : Spliced content within inner) (rest : Spliced said bodies plain) :
      Spliced (.block tag attributes content :: said) (within ++ bodies) (.block tag attributes inner :: plain)
  | definition {content inner said plain : List Markup} {within bodies : List (Text × List Markup)} (name : Text)
      (inside : Spliced content within inner) (rest : Spliced said bodies plain) :
      Spliced (.definition name :: said) (within ++ (name, content) :: bodies) (inner ++ plain)

theorem Spliced.append {said said' plain plain' : List Markup} {bodies bodies' : List (Text × List Markup)}
    (first : Spliced said bodies plain) (second : Spliced said' bodies' plain') :
    Spliced (said ++ said') (bodies ++ bodies') (plain ++ plain') := by
  induction first with
  | nil => exact second
  | text x _ ih => exact .text x ih
  | value tag attributes raw _ ih => exact .value tag attributes raw ih
  | block tag attributes inside _ _ ih =>
    rw [List.append_assoc]
    exact .block tag attributes inside ih
  | definition name inside _ _ ih =>
    rw [List.append_assoc, List.append_assoc]
    exact .definition name inside ih

/-- The block of a tag, whether it is a definition or not. -/
theorem Spliced.around {content inner : List Markup} {within : List (Text × List Markup)}
    (inside : Spliced content within inner) (tag : Tag) :
    Spliced [tag.saidAround content] (within ++ tag.bodyAround content) (tag.plainAround inner) := by
  unfold Tag.saidAround Tag.bodyAround Tag.plainAround
  split
  · have one := Spliced.definition tag.defined inside .nil
    rwa [List.append_nil] at one
  · exact .block tag.name tag.attributes inside .nil

/-! ## What is drawn -/

def bodiesOf (bodies : List (Text × List Markup)) (name : Text) : List (List Markup) :=
  bodies.filterMap fun b => if b.1 = name then some b.2 else none

theorem bodiesOf_append (bodies bodies' : List (Text × List Markup)) (name : Text) :
    bodiesOf (bodies ++ bodies') name = bodiesOf bodies name ++ bodiesOf bodies' name := List.filterMap_append ..

theorem bodiesOf_of_not_mem {bodies : List (Text × List Markup)} {name : Text} (absent : name ∉ bodies.map Prod.fst) :
    bodiesOf bodies name = [] := by
  rw [bodiesOf, List.filterMap_eq_nil_iff]
  intro b mem
  refine if_neg fun same => absent ?_
  rw [← same]
  exact List.mem_map_of_mem mem

/-- Among bodies of different names each is the only one of its name. -/
theorem bodiesOf_of_mem {bodies : List (Text × List Markup)} (distinct : (bodies.map Prod.fst).Nodup) {name : Text}
    {content : List Markup} (mem : (name, content) ∈ bodies) : bodiesOf bodies name = [content] := by
  obtain ⟨before, after, rfl⟩ := List.append_of_mem mem
  rw [List.map_append, List.map_cons, List.nodup_middle, List.nodup_cons, List.mem_append, not_or] at distinct
  have here : bodiesOf ((name, content) :: after) name = content :: bodiesOf after name := by simp [bodiesOf]
  rw [bodiesOf_append, here, bodiesOf_of_not_mem distinct.1.1, bodiesOf_of_not_mem distinct.1.2]
  rfl

namespace Sketch

/-- Wherever a step is taken, the innermost layer has further children and some bodies are filed. -/
def Gains (said : List Markup) (bodies : List (Text × List Markup)) (step : Sketch → Sketch) : Prop :=
  ∀ l around filed next, ∃ next', step ⟨l :: around, filed, next⟩
    = ⟨{ l with said := l.said ++ said } :: around, fun name => filed name ++ bodiesOf bodies name, next'⟩

theorem gains_id : Gains [] [] fun k => k := by
  intro l around filed next
  refine ⟨next, ?_⟩
  simp [bodiesOf]

theorem Gains.comp {said said' : List Markup} {bodies bodies' : List (Text × List Markup)} {step step' : Sketch → Sketch}
    (first : Gains said bodies step) (second : Gains said' bodies' step') :
    Gains (said ++ said') (bodies ++ bodies') fun k => step' (step k) := by
  intro l around filed next
  obtain ⟨next₁, eq₁⟩ := first l around filed next
  obtain ⟨next₂, eq₂⟩ := second { l with said := l.said ++ said } around
    (fun name => filed name ++ bodiesOf bodies name) next₁
  refine ⟨next₂, ?_⟩
  dsimp only
  rw [eq₁, eq₂]
  simp only [List.append_assoc, bodiesOf_append]

theorem gains_say (m : Markup) : Gains [m] [] (·.say m) := by
  intro l around filed next
  refine ⟨next + 1, ?_⟩
  simp [say, Layer.saying, bodiesOf]

theorem closed_blockKind (tag : Tag) (id : NodeId) (content : List Markup) :
    Layer.closed ⟨id, Builder.blockKind tag, content⟩ = tag.saidAround content := by
  unfold Layer.closed Builder.blockKind Tag.saidAround
  split <;> rfl

theorem bodyOf_blockKind (tag : Tag) (id : NodeId) (content : List Markup) (name : Text) :
    Layer.bodyOf ⟨id, Builder.blockKind tag, content⟩ name = bodiesOf (tag.bodyAround content) name := by
  by_cases definition : tag.name = definitionTag
  · have kind : Builder.blockKind tag = .definition tag.defined tag.attributes .opened := if_pos definition
    rw [Layer.bodyOf_of_definition kind, Tag.bodyAround, if_pos definition, bodiesOf, List.filterMap_cons]
    split <;> simp_all
  · rw [Layer.bodyOf_of_other (blockKind_ne_definition definition), Tag.bodyAround, if_neg definition]
    rfl

/-- A block that was just opened is filled and closed. -/
theorem close_opened (tag : Tag) (id next : NodeId) (content : List Markup) (l : Layer) (around : List Layer)
    (filed : Text → List (List Markup)) :
    Sketch.close ⟨⟨id, Builder.blockKind tag, content⟩ :: l.saying (.group []) :: around, filed, next⟩
        ⟨id, Builder.blockKind tag, content⟩ (l.saying (.group []) :: around)
      = ⟨{ l with said := l.said ++ [tag.saidAround content] } :: around,
          fun name => filed name ++ bodiesOf (tag.bodyAround content) name, next⟩ := by
  unfold Sketch.close
  simp only [closed_blockKind, bodyOf_blockKind, Layer.correcting, Layer.saying, List.modifyHead_cons,
    List.dropLast_concat]

/-- A block that closes itself is said and filed with nothing in it. -/
theorem gains_selfClosing (tag : Tag) :
    Gains [tag.saidAround []] (tag.bodyAround []) (·.openBlock tag true) := by
  intro l around filed next
  exact ⟨next + 1, close_opened tag next (next + 1) [] l around filed⟩

/-- **A block around a step** is said and filed with what the step gains. -/
theorem Gains.block {content : List Markup} {within : List (Text × List Markup)} {step : Sketch → Sketch}
    (inside : Gains content within step) (tag : Tag) {name : Text} (same : tag.name = name) :
    Gains [tag.saidAround content] (within ++ tag.bodyAround content)
      fun k => (step (k.openBlock tag false)).closeBlock name := by
  intro l around filed next
  dsimp only
  obtain ⟨next', eq⟩ := inside ⟨next, Builder.blockKind tag, []⟩ (l.saying (.group []) :: around) filed (next + 1)
  refine ⟨next', ?_⟩
  have opened : Sketch.openBlock ⟨l :: around, filed, next⟩ tag false
      = ⟨⟨next, Builder.blockKind tag, []⟩ :: l.saying (.group []) :: around, filed, next + 1⟩ := rfl
  rw [opened, eq, closeBlock]
  dsimp only
  rw [List.dropWhile_cons_of_neg (by simp [(Builder.blockKind_opens tag).2, same])]
  dsimp only
  rw [List.nil_append, close_opened]
  simp only [bodiesOf_append, List.append_assoc]

end Sketch

/-! ## What tokens tell -/

/-- Some tokens say `said` with the definitions in their places, give the names their `bodies`, and say `plain` if the
tags of definitions are left out. -/
structure Tells (tokens : List Token) (said : List Markup) (bodies : List (Text × List Markup)) (plain : List Markup) :
    Prop where
  spliced : Spliced said bodies plain
  gains : Sketch.Gains said bodies fun k => tokens.foldl Sketch.push k
  nested : Nested (withoutDefinitions tokens) plain
  names : (bodies.map Prod.fst).Perm (tokens.filterMap Token.defines?)

theorem tells_nil : Tells [] [] [] [] := ⟨.nil, Sketch.gains_id, .nil, .nil⟩

theorem Tells.append {ts ts' : List Token} {said said' plain plain' : List Markup}
    {bodies bodies' : List (Text × List Markup)} (first : Tells ts said bodies plain)
    (second : Tells ts' said' bodies' plain') : Tells (ts ++ ts') (said ++ said') (bodies ++ bodies') (plain ++ plain') := by
  refine ⟨first.spliced.append second.spliced, ?_, ?_, ?_⟩
  · have both := first.gains.comp second.gains
    simpa only [List.foldl_append] using both
  · rw [withoutDefinitions_append]
    exact first.nested.append second.nested
  · rw [List.map_append, List.filterMap_append]
    exact first.names.append second.names

theorem tells_text {t : Token} {x : Text} (fragment : t.fragment = .text x) : Tells [t] [.text x] [] [.text x] := by
  constructor
  case spliced => exact .text x .nil
  case gains => simpa [Sketch.push, fragment] using Sketch.gains_say (.text x)
  case nested =>
    rw [withoutDefinitions, List.filter_singleton, Token.delimits, fragment, Fragment.delimits]
    exact .text fragment .nil
  case names => simp [Token.defines?, fragment]

theorem tells_value {t : Token} {tag : Tag} {raw : Text} (fragment : t.fragment = .tag tag)
    (shape : tag.shape = .value raw) (alone : t.inherits = false) :
    Tells [t] [.value tag.name tag.attributes tag.raw] [] [.value tag.name tag.attributes tag.raw] := by
  have outside : t.delimits = false := by simp [Token.delimits, Fragment.delimits, fragment, shape]
  have ordinary : t.isReserved = false := by rw [Token.isReserved_eq, outside, alone, Bool.or_false]
  constructor
  case spliced => exact .value _ _ _ .nil
  case gains =>
    have other : tag.name ≠ extendsTag ∧ tag.name ≠ parentTag := by simpa [Token.inherits, fragment, shape] using alone
    simpa [Sketch.push, Sketch.pushValue, fragment, shape, other] using Sketch.gains_say _
  case nested =>
    rw [withoutDefinitions, List.filter_singleton, outside]
    exact .value ordinary fragment shape .nil
  case names => simp [Token.defines?, fragment, shape]

section Opening

variable {t : Token} {tag : Tag} {raw : Text} {selfClosing : Bool} (fragment : t.fragment = .tag tag)
  (shape : tag.shape = .opening raw selfClosing)
include fragment shape

theorem delimits_of_opening : t.delimits = (tag.name == definitionTag) := by
  simp [Token.delimits, Fragment.delimits, fragment, shape]

/-- An opening tag is reserved if it is one of a definition. -/
theorem isReserved_of_opening (ordinary : tag.name ≠ definitionTag) : t.isReserved = false := by
  simp [Token.isReserved, fragment, shape, ordinary]

theorem defines?_of_opening : t.defines?.toList = (tag.bodyAround []).map Prod.fst := by
  unfold Token.defines? Tag.bodyAround
  simp only [fragment, shape]
  split <;> rfl

end Opening

theorem bodyAround_names (tag : Tag) (content content' : List Markup) :
    (tag.bodyAround content).map Prod.fst = (tag.bodyAround content').map Prod.fst := by
  unfold Tag.bodyAround
  split <;> rfl

theorem tells_selfClosing {t : Token} {tag : Tag} {raw : Text} (fragment : t.fragment = .tag tag)
    (shape : tag.shape = .opening raw true) : Tells [t] [tag.saidAround []] (tag.bodyAround []) (tag.plainAround []) := by
  constructor
  case spliced => exact Spliced.nil.around tag
  case gains => simpa [Sketch.push, fragment, shape] using Sketch.gains_selfClosing tag
  case nested =>
    rw [withoutDefinitions, List.filter_singleton, delimits_of_opening fragment shape, Tag.plainAround]
    by_cases definition : tag.name = definitionTag
    · simpa [definition] using Nested.nil
    · rw [if_neg definition, beq_false_of_ne definition]
      exact .selfClosing (isReserved_of_opening fragment shape definition) fragment shape .nil
  case names =>
    rw [List.filterMap_cons, ← defines?_of_opening fragment shape]
    cases t.defines? <;> exact .refl _

/-- **A pair of tags around some tokens** tells what they tell, as one definition or one block. -/
theorem Tells.block {inner : List Token} {content plain : List Markup} {within : List (Text × List Markup)}
    (inside : Tells inner content within plain) {t t' : Token} {tag tag' : Tag} {raw : Text}
    (fragment : t.fragment = .tag tag) (shape : tag.shape = .opening raw false) (closes : t'.fragment = .tag tag')
    (shape' : tag'.shape = .closing) (same : tag'.name = tag.name) :
    Tells (t :: (inner ++ [t'])) [tag.saidAround content] (within ++ tag.bodyAround content) (tag.plainAround plain) := by
  constructor
  case spliced => exact inside.spliced.around tag
  case gains =>
    have around := inside.gains.block tag same.symm
    simpa [List.foldl_append, Sketch.push, fragment, shape, closes, shape'] using around
  case nested =>
    have closing : t'.delimits = (tag.name == definitionTag) := by simp [Token.delimits, Fragment.delimits, closes, shape', same]
    rw [withoutDefinitions, List.filter_cons, List.filter_append, List.filter_singleton,
      delimits_of_opening fragment shape, closing, Tag.plainAround]
    by_cases definition : tag.name = definitionTag
    · simpa [definition, withoutDefinitions] using inside.nested
    · rw [if_neg definition, beq_false_of_ne definition]
      have ordinary := isReserved_of_opening fragment shape definition
      exact .block ordinary fragment shape closes shape' same inside.nested .nil
  case names =>
    have last : t'.defines? = none := by simp [Token.defines?, closes, shape']
    have first : (t :: (inner ++ [t'])).filterMap Token.defines?
        = t.defines?.toList ++ inner.filterMap Token.defines? := by
      rw [List.filterMap_cons, List.filterMap_append, List.filterMap_cons, last]
      cases t.defines? <;> simp
    rw [first, List.map_append, defines?_of_opening fragment shape, bodyAround_names tag content []]
    exact (inside.names.append_right _).trans List.perm_append_comm

/-- **Balanced tokens without inheritance** tell something. -/
theorem exists_tells {tokens : List Token} (balanced : Balanced tokens) (alone : ∀ t ∈ tokens, t.inherits = false) :
    ∃ said bodies plain, Tells tokens said bodies plain := by
  induction balanced with
  | nil => exact ⟨[], [], [], tells_nil⟩
  | @plain t ts opens closes rest ih =>
    obtain ⟨said, bodies, plain, behind⟩ := ih fun u mem => alone u (List.mem_cons_of_mem _ mem)
    have here := alone t (List.mem_cons_self ..)
    cases fragment : t.fragment with
    | text x => exact ⟨_, _, _, (tells_text fragment).append behind⟩
    | tag tag =>
      cases shape : tag.shape with
      | value raw => exact ⟨_, _, _, (tells_value fragment shape here).append behind⟩
      | opening raw selfClosing =>
        cases selfClosing with
        | true => exact ⟨_, _, _, (tells_selfClosing fragment shape).append behind⟩
        | false => simp [Token.opens?, fragment, shape] at opens
      | closing => simp [Token.closes?, fragment, shape] at closes
  | @block t t' name inner ts opens inside closes rest ih_inner ih =>
    obtain ⟨tag, raw, fragment, shape, same⟩ := Token.exists_of_opens? opens
    obtain ⟨tag', fragment', shape', same'⟩ := Token.exists_of_closes? closes
    obtain ⟨content, within, plain, around⟩ := ih_inner fun u mem =>
      alone u (List.mem_cons_of_mem _ (List.mem_append_left _ mem))
    obtain ⟨said, bodies, plain', behind⟩ := ih fun u mem =>
      alone u (List.mem_cons_of_mem _ (List.mem_append_right _ (List.mem_cons_of_mem _ mem)))
    have both := (around.block fragment shape fragment' shape' (same'.trans same.symm)).append behind
    rw [List.cons_append, List.append_assoc, List.singleton_append] at both
    exact ⟨_, _, _, both⟩

end TagTemplate
