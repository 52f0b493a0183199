/-
# Proofs.Token.Outline -- cutting tags out of a text

Fragments may hold a text in one piece or in several.  Their outline is the same then: the
text in front of the first tag, and each tag with the text behind it.

A text can be put together again from the lexemes that are left when some tags are dropped.
It need not read as these lexemes: where a tag is gone, the texts beside it may join to a
new one.  But a tag is read the same wherever it stands (`Token.Movable`), and no tag starts
in a text without `tpl:`.  So the outline comes back if no text of it has that
(`outline_lexemes_flatMap`).
-/
import TagTemplate.Proofs.Token.Partition
import TagTemplate.Proofs.Token.Printing

namespace TagTemplate

set_option autoImplicit false

/-- The text in front of the first tag, and each tag with the text behind it. -/
def Fragment.outline : List Fragment → Text × List (Tag × Text)
  | [] => ([], [])
  | .text x :: fs => (x ++ (outline fs).1, (outline fs).2)
  | .tag t :: fs => ([], (t, (outline fs).1) :: (outline fs).2)

def Lexeme.outline (ls : List Lexeme) : Text × List (Tag × Text) := Fragment.outline (ls.map (·.fragment))

def Token.outline (ts : List Token) : Text × List (Tag × Text) := Fragment.outline (ts.map (·.fragment))

def outlineTexts (o : Text × List (Tag × Text)) : List Text := o.1 :: o.2.map Prod.snd

theorem tag_mem_iff_outline {fs : List Fragment} {tag : Tag} :
    .tag tag ∈ fs ↔ tag ∈ (Fragment.outline fs).2.map Prod.fst := by
  induction fs with
  | nil => simp [Fragment.outline]
  | cons f fs ih => cases f <;> simp [Fragment.outline, ih]

/-- Fragments whose tags strip nothing. -/
def Unstripped (fs : List Fragment) : Prop := ∀ tag, .tag tag ∈ fs → tag.stripBefore = false ∧ tag.stripAfter = false

instance (fs : List Fragment) : Decidable (Unstripped fs) :=
  decidable_of_iff (∀ f ∈ fs, f.stripsFront = false ∧ f.stripsBehind = false)
    ⟨fun quiet _ mem => quiet _ mem, fun quiet f mem =>
      match f, mem with
      | .text _, _ => ⟨rfl, rfl⟩
      | .tag t, mem => quiet t mem⟩

/-- Whether fragments strip something is a matter of their outline. -/
theorem Unstripped.of_outline {fs fs' : List Fragment} (unstripped : Unstripped fs)
    (same : Fragment.outline fs' = Fragment.outline fs) : Unstripped fs' := by
  intro tag mem
  rw [tag_mem_iff_outline, same, ← tag_mem_iff_outline] at mem
  exact unstripped tag mem

namespace Token

/-- Where nothing is stripped, every text stays as it is. -/
theorem settle_of_unstripped {ts : List Token} (unstripped : Unstripped (ts.map (·.fragment))) :
    settle false ts = ts := by
  have quiet : ∀ t ∈ ts, t.fragment.stripsFront = false ∧ t.fragment.stripsBehind = false := by
    rintro ⟨x | tag, a, b⟩ mem
    · exact ⟨rfl, rfl⟩
    · exact unstripped tag (List.mem_map_of_mem mem)
  clear unstripped
  induction ts with
  | nil => rfl
  | cons t ts ih =>
    have front : ts.head?.any (·.fragment.stripsFront) = false := by
      cases ts with
      | nil => rfl
      | cons u ts => exact (quiet u (List.mem_cons_of_mem _ (List.mem_cons_self ..))).1
    have rest := ih fun u mem => quiet u (List.mem_cons_of_mem _ mem)
    rw [settle_cons, front, (quiet t (List.mem_cons_self ..)).2, rest, between_false]
    rfl

theorem unstripped_tokenize_iff {text : Text} :
    Unstripped ((tokenize text).map (·.fragment)) ↔ Unstripped ((lexemes text).map (·.fragment)) := by
  have same (tag : Tag) : .tag tag ∈ (tokenize text).map (·.fragment) ↔ .tag tag ∈ (lexemes text).map (·.fragment) := by
    rw [← fragments_place _ 0]
    simp only [List.mem_map, tokenize]
    constructor
    · rintro ⟨⟨_, a, b⟩, mem, rfl⟩
      exact ⟨_, tag_mem_settle_iff.1 mem, rfl⟩
    · rintro ⟨⟨_, a, b⟩, mem, rfl⟩
      exact ⟨_, tag_mem_settle_iff.2 mem, rfl⟩
  exact forall_congr' fun tag => by rw [same]

/-- The fragments of a text without strip modifiers are those it is cut into. -/
theorem map_fragment_tokenize {text : Text} (unstripped : Unstripped ((lexemes text).map (·.fragment))) :
    (tokenize text).map (·.fragment) = (lexemes text).map (·.fragment) := by
  rw [tokenize, settle_of_unstripped, fragments_place]
  rwa [fragments_place]

end Token

/-! ## Putting lexemes together -/

/-- Text in front of some lexemes is in front of their outline. -/
theorem outline_foldr_consChar (x : Text) (ls : List Lexeme) :
    Lexeme.outline (x.foldr Token.consChar ls) = (x ++ (Lexeme.outline ls).1, (Lexeme.outline ls).2) := by
  have one (c : Char) (ls : List Lexeme) :
      Lexeme.outline (Token.consChar c ls) = (c :: (Lexeme.outline ls).1, (Lexeme.outline ls).2) := by
    rcases ls with - | ⟨⟨y | tag, slice⟩, ls⟩ <;> rfl
  induction x with
  | nil => rfl
  | cons c x ih => rw [List.foldr_cons, one, ih, List.cons_append]

/-- What is written behind the first text of some lexemes starts with a tag, or is nothing. -/
theorem exists_opens {ls : List Lexeme} (movable : ∀ l ∈ ls, Token.Movable l) :
    ∃ rest, ls.flatMap (·.slice) = (Lexeme.outline ls).1 ++ rest ∧ Tag.Opens rest := by
  induction ls with
  | nil => exact ⟨[], rfl, .inl rfl⟩
  | cons l ls ih =>
    obtain ⟨here, others⟩ := List.forall_mem_cons.1 movable
    obtain ⟨fragment, slice⟩ := l
    rw [List.flatMap_cons]
    cases fragment with
    | text x =>
      obtain rfl : slice = x := here
      obtain ⟨rest, split, opens⟩ := ih others
      exact ⟨rest, by rw [split, ← List.append_assoc]; rfl, opens⟩
    | tag t => exact ⟨_, rfl, Tag.opens_of_written (here _)⟩

/-- **Movable lexemes are read back up to their outline**, if no text of it has `tpl:` in it. -/
theorem outline_lexemes_flatMap {ls : List Lexeme} (movable : ∀ l ∈ ls, Token.Movable l)
    (plain : ∀ x ∈ outlineTexts (Lexeme.outline ls), ¬ "tpl:".toList <:+: x) :
    Lexeme.outline (Token.lexemes (ls.flatMap (·.slice))) = Lexeme.outline ls := by
  induction ls with
  | nil =>
    rw [List.flatMap_nil, Token.lexemes_nil]
  | cons l ls ih =>
    obtain ⟨here, others⟩ := List.forall_mem_cons.1 movable
    obtain ⟨fragment, slice⟩ := l
    rw [List.flatMap_cons]
    cases fragment with
    | text x =>
      obtain rfl : slice = x := here
      obtain ⟨first, behind⟩ := List.forall_mem_cons.1 plain
      obtain ⟨rest, split, opens⟩ := exists_opens others
      have solid : ∀ u, u <:+ slice → u ≠ [] → Tag.scan? (u ++ ls.flatMap (·.slice)) = none := by
        rintro u ⟨a, eq⟩ nonempty
        obtain ⟨d, v, rfl⟩ := List.exists_cons_of_ne_nil nonempty
        have whole : slice ++ (Lexeme.outline ls).1 = a ++ d :: (v ++ (Lexeme.outline ls).1) := by
          rw [← eq, List.append_assoc, List.cons_append]
        rw [split, ← List.append_assoc]
        exact Tag.scan?_of_plain first whole opens
      have shorter : ∀ x ∈ outlineTexts (Lexeme.outline ls), ¬ "tpl:".toList <:+: x :=
        List.forall_mem_cons.2 ⟨fun inside => first (inside.trans (List.suffix_append ..).isInfix), behind⟩
      rw [Token.lexemes_of_solid solid, outline_foldr_consChar, ih others shorter]
      rfl
    | tag t =>
      have behind := (List.forall_mem_cons.1 plain).2
      rw [Token.lexemes_of_written (here _)]
      show ([], (t, (Lexeme.outline (Token.lexemes _)).1) :: (Lexeme.outline (Token.lexemes _)).2) = _
      rw [ih others behind]
      rfl

end TagTemplate
