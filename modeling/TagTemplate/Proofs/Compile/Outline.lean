/-
# Proofs.Compile.Outline -- where texts are cut makes no difference

Tokens may hold a text in one piece or in several, or an empty piece where there is none.
Their outline is the same then: the text in front of the first tag, and each tag with the
text behind it.

Well-nested tokens are played on a stack, whose frames hold what was read of an open block
as one computation (`Playing`).  Two texts one after the other are played as one, so the
play of tokens is that of their outline (`foldl_push_eq`), and it performs the markup that
they write (`Nested.foldl_play`).  So tokens with one outline are compiled to the same text.
Whether they nest is a matter of the tags alone.
-/
import TagTemplate.Proofs.Compile.Recovery
import TagTemplate.Proofs.Token.Outline
import TagTemplate.Proofs.Tree.Splice

namespace TagTemplate

set_option autoImplicit false

variable {σ : Type}

/-! ## The tags of an outline -/

theorem outline_text {t : Token} {x : Text} (fragment : t.fragment = .text x) (ts : List Token) :
    Token.outline (t :: ts) = (x ++ (Token.outline ts).1, (Token.outline ts).2) := by
  rw [Token.outline, List.map_cons, fragment]
  rfl

theorem outline_tag {t : Token} {tag : Tag} (fragment : t.fragment = .tag tag) (ts : List Token) :
    Token.outline (t :: ts) = ([], (tag, (Token.outline ts).1) :: (Token.outline ts).2) := by
  rw [Token.outline, List.map_cons, fragment]
  rfl

def tagsOf (tags : List (Tag × Text)) : List Token := tags.map fun t => ⟨.tag t.1, 0, 0⟩

/-- Whether tokens close what is open depends on their tags. -/
theorem completes_tagsOf (ts : List Token) : ∀ names, completes names (tagsOf (Token.outline ts).2) = completes names ts := by
  induction ts with
  | nil => exact fun _ => rfl
  | cons t ts ih =>
    intro names
    cases fragment : t.fragment with
    | text x =>
      have opens : t.opens? = none := by rw [Token.opens?, fragment]
      have closes : t.closes? = none := by rw [Token.closes?, fragment]
      rw [outline_text fragment, ih, completes.eq_2, opens, closes]
    | tag tag =>
      have opens : t.opens? = (⟨.tag tag, 0, 0⟩ : Token).opens? := by rw [Token.opens?, fragment, Token.opens?]
      have closes : t.closes? = (⟨.tag tag, 0, 0⟩ : Token).closes? := by rw [Token.closes?, fragment, Token.closes?]
      rw [outline_tag fragment, tagsOf, List.map_cons, completes, completes, opens, closes]
      simp only [← ih]
      rfl

/-- Reserved tags of some tokens are in their outline. -/
theorem isReserved_tagsOf (ts : List Token) :
    (tagsOf (Token.outline ts).2).any Token.isReserved = ts.any Token.isReserved := by
  induction ts with
  | nil => rfl
  | cons t ts ih =>
    cases fragment : t.fragment with
    | text x =>
      have ordinary : t.isReserved = false := by rw [Token.isReserved, fragment]
      rw [outline_text fragment, List.any_cons, ordinary, Bool.false_or]
      exact ih
    | tag tag =>
      have same : t.isReserved = (⟨.tag tag, 0, 0⟩ : Token).isReserved := by
        rw [Token.isReserved, fragment, Token.isReserved]
      rw [outline_tag fragment, tagsOf, List.map_cons, List.any_cons, List.any_cons, same]
      exact congrArg _ ih

/-! ## Playing tokens -/

/-- What was read so far, as computations: that of each open block, the innermost first, and that outside of them. -/
structure Playing (σ : Type) where
  blocks : List (Tag × StateM σ Text) := []
  content : StateM σ Text := pure []

namespace Playing

def andThen (first second : StateM σ Text) : StateM σ Text := do
  let text ← first
  let rest ← second
  return text ++ rest

def add (p : Playing σ) (more : StateM σ Text) : Playing σ :=
  match p.blocks with
  | [] => { p with content := andThen p.content more }
  | b :: outer => { p with blocks := (b.1, andThen b.2 more) :: outer }

def pushTag (r : Registry σ) (p : Playing σ) (tag : Tag) : Playing σ :=
  match tag.shape with
  | .value _ => p.add (r.valueText tag.name tag.attributes tag.raw)
  | .opening _ true => p.add (r.blockText tag.name tag.attributes [])
  | .opening _ false => { p with blocks := (tag, pure []) :: p.blocks }
  | .closing =>
    match p.blocks with
    | [] => p
    | b :: outer => { p with blocks := outer }.add do r.blockText b.1.name b.1.attributes (← b.2)

def push (r : Registry σ) (p : Playing σ) (t : Token) : Playing σ :=
  match t.fragment with
  | .text x => p.add (pure x)
  | .tag tag => p.pushTag r tag

theorem andThen_assoc (one two three : StateM σ Text) :
    andThen (andThen one two) three = andThen one (andThen two three) := by
  simp only [andThen, bind_assoc, pure_bind]
  simp only [List.append_assoc]

theorem andThen_nil (computation : StateM σ Text) : andThen computation (pure []) = computation := by
  simp [andThen]

theorem nil_andThen (computation : StateM σ Text) : andThen (pure []) computation = computation := by
  simp [andThen]

theorem add_add (p : Playing σ) (one two : StateM σ Text) : (p.add one).add two = p.add (andThen one two) := by
  obtain ⟨_ | ⟨b, outer⟩, content⟩ := p <;> simp [add, andThen_assoc]

theorem add_nil (p : Playing σ) : p.add (pure []) = p := by
  obtain ⟨_ | ⟨b, outer⟩, content⟩ := p <;> simp [add, andThen_nil]

def playOutline (r : Registry σ) (p : Playing σ) (o : Text × List (Tag × Text)) : Playing σ :=
  o.2.foldl (fun p t => (p.pushTag r t.1).add (pure t.2)) (p.add (pure o.1))

/-- **Tokens are played like their outline.** -/
theorem foldl_push_eq (r : Registry σ) (ts : List Token) :
    ∀ p : Playing σ, ts.foldl (push r) p = p.playOutline r (Token.outline ts) := by
  induction ts with
  | nil => exact fun p => p.add_nil.symm
  | cons t ts ih =>
    intro p
    rw [List.foldl_cons, ih]
    cases fragment : t.fragment with
    | text x =>
      rw [outline_text fragment, push, fragment, playOutline, add_add]
      rfl
    | tag tag =>
      rw [outline_tag fragment, push, fragment, playOutline, playOutline, List.foldl_cons, add_nil]

end Playing

open Playing in
/-- **Playing well-nested tokens performs their markup.** -/
theorem Nested.foldl_play {ts : List Token} {ms : List Markup} (nested : Nested ts ms) (r : Registry σ) :
    ∀ p : Playing σ, ts.foldl (push r) p = p.add (Markup.performAll r ms) := by
  have cons (m : Markup) (ms : List Markup) :
      Markup.performAll r (m :: ms) = andThen (m.perform r) (Markup.performAll r ms) := rfl
  induction nested with
  | nil => exact fun p => p.add_nil.symm
  | text fragment _ ih =>
    intro p
    rw [List.foldl_cons, ih, push, fragment, cons, ← add_add]
    rfl
  | value _ fragment shape _ ih =>
    intro p
    rw [List.foldl_cons, ih, push, fragment, cons, ← add_add]
    simp only [pushTag, shape]
    rfl
  | selfClosing _ fragment shape _ ih =>
    intro p
    rw [List.foldl_cons, ih, push, fragment, cons, ← add_add]
    simp only [pushTag, shape]
    rfl
  | @block t t' tag tag' _ inner ts content ms _ fragment shape closes shape' _ _ _ ih_inner ih =>
    intro p
    have opened : p.push r t = { p with blocks := (tag, pure []) :: p.blocks } := by
      rw [push, fragment]
      simp only [pushTag, shape]
    have closed : (add { p with blocks := (tag, pure []) :: p.blocks } (Markup.performAll r content)).push r t'
        = p.add ((Markup.block tag.name tag.attributes content).perform r) := by
      rw [push, closes]
      simp only [pushTag, shape', add, nil_andThen]
      rfl
    rw [List.foldl_cons, opened, List.foldl_append, ih_inner, List.foldl_cons, closed, ih, add_add, cons]

/-! ## Tokens with one outline -/

/-- Tokens with one outline perform the same. -/
theorem Nested.performAll_eq {ts ts' : List Token} {ms ms' : List Markup} (nested : Nested ts ms)
    (nested' : Nested ts' ms') (same : Token.outline ts' = Token.outline ts) (r : Registry σ) :
    Markup.performAll r ms' = Markup.performAll r ms := by
  have played : Playing.add {} (Markup.performAll r ms') = Playing.add {} (Markup.performAll r ms) := by
    rw [← nested.foldl_play, ← nested'.foldl_play, Playing.foldl_push_eq, Playing.foldl_push_eq, same]
  simpa only [Playing.add, Playing.nil_andThen] using congrArg Playing.content played

/-- Tokens nest without reserved tags if others do that have the same outline. -/
theorem Nested.of_outline {ts ts' : List Token} {ms : List Markup} (nested : Nested ts ms)
    (same : Token.outline ts' = Token.outline ts) : ∃ ms', Nested ts' ms' := by
  have balanced := (Tree.diagnostics_build ts [] {} {}).2.2.1 (diagnostics_build_of_nested nested [] {} {})
  have balanced' : Balanced ts' := by
    rw [← completes_nil_iff, ← completes_tagsOf, same, completes_tagsOf, completes_nil_iff]
    exact balanced
  have ordinary : ts'.any Token.isReserved = false := by
    rw [← isReserved_tagsOf, same, isReserved_tagsOf, List.any_eq_false]
    exact fun t mem => Bool.eq_false_iff.1 (nested.ordinary t mem)
  have apart : ∀ t ∈ ts', t.delimits = false ∧ t.inherits = false := by
    intro t mem
    have here := Bool.eq_false_iff.2 (List.any_eq_false.1 ordinary t mem)
    rwa [Token.isReserved_eq, Bool.or_eq_false_iff] at here
  obtain ⟨_, _, plain, tells⟩ := exists_tells balanced' fun t mem => (apart t mem).2
  have all : withoutDefinitions ts' = ts' := by
    refine List.filter_eq_self.2 fun t mem => ?_
    rw [(apart t mem).1]
    rfl
  exact ⟨plain, all ▸ tells.nested⟩

/-- **Tokens with one outline do the same.**  If some nest without reserved tags, others with their outline are built
without a report and compiled to the same text, with the same state of the handlers. -/
theorem compile_build_of_outline {ts ts' : List Token} {ms : List Markup} (nested : Nested ts ms)
    (same : Token.outline ts' = Token.outline ts) (source source' : Text) (r : Registry σ) (state : σ) :
    (Tree.build ts' source' {} {}).compiled r state = (Tree.build ts source {} {}).compiled r state ∧
      (Tree.build ts' source' {} {}).diagnostics = [] := by
  obtain ⟨ms', nested'⟩ := nested.of_outline same
  refine ⟨?_, diagnostics_build_of_nested nested' ..⟩
  rw [(compile_build_eq_perform nested' ..).1, (compile_build_eq_perform nested ..).1, nested.performAll_eq nested' same]

/-! ## Definitions cut out of a text -/

def cutDefinitions (text : Text) : Text :=
  ((Token.lexemes text).filter fun l => !l.fragment.delimits).flatMap (·.slice)

/-- **Cutting the tags of definitions out of a text leaves the other tags**, and the texts between them joined, if no tag
strips what is beside it and no text that is left has `tpl:` in it. -/
theorem outline_cutDefinitions {text : Text} (unstripped : Unstripped ((Token.tokenize text).map (·.fragment)))
    (plain : ∀ x ∈ outlineTexts (Token.outline (withoutDefinitions (Token.tokenize text))), ¬ "tpl:".toList <:+: x) :
    Token.outline (Token.tokenize (cutDefinitions text)) = Token.outline (withoutDefinitions (Token.tokenize text)) := by
  let left := (Token.lexemes text).filter fun l => !l.fragment.delimits
  rw [Token.unstripped_tokenize_iff] at unstripped
  have kept : Token.outline (withoutDefinitions (Token.tokenize text)) = Lexeme.outline left := by
    have tokens : (withoutDefinitions (Token.tokenize text)).map (·.fragment)
        = ((Token.tokenize text).map (·.fragment)).filter fun f => !f.delimits := by
      rw [List.filter_map]
      rfl
    have lexemes : left.map (·.fragment) = ((Token.lexemes text).map (·.fragment)).filter fun f => !f.delimits := by
      rw [List.filter_map]
      rfl
    rw [Token.outline, Lexeme.outline, tokens, lexemes, Token.map_fragment_tokenize unstripped]
  rw [kept] at plain ⊢
  have movable : ∀ l ∈ left, Token.Movable l := fun l mem =>
    Token.movable_lexemes text l (List.mem_of_mem_filter mem)
  have back : Lexeme.outline (Token.lexemes (cutDefinitions text)) = Lexeme.outline left :=
    outline_lexemes_flatMap movable plain
  have quiet : Unstripped (left.map (·.fragment)) := by
    intro tag mem
    obtain ⟨l, mem, eq⟩ := List.mem_map.1 mem
    exact unstripped tag (eq ▸ List.mem_map_of_mem (List.mem_of_mem_filter mem))
  rw [← back, Token.outline, Token.map_fragment_tokenize (quiet.of_outline back)]
  rfl

end TagTemplate
