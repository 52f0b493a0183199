/-
# Proofs.Token -- what the tags of a source are called

The name of a tag consists of name characters, whichever of the six openers it was read
behind (`Tag.isName_of_scan?`), and so do the names of all tags that a source is cut
into: placing lexemes and stripping blanks leaves tags as they are.

A source in which no tag starts is one text.
-/
import Mathlib.Data.List.TakeWhile
import TagTemplate.Token

namespace TagTemplate

set_option autoImplicit false

open Text

/-! ## Names -/

namespace Tag

/-- Whether a text consists of name characters. -/
def IsName (name : Text) : Prop := ∀ c ∈ name, isNameChar c = true

instance (name : Text) : Decidable (IsName name) := decidable_of_iff (name.all isNameChar = true) List.all_eq_true

theorem IsName.not_mem {name : Text} (is_name : IsName name) {c : Char} (other : isNameChar c = false) : c ∉ name := by
  intro mem
  rw [is_name c mem] at other
  cases other

theorem isName_of_name? {t name rest : Text} (found : name? t = some (name, rest)) : IsName name := by
  unfold name? at found
  dsimp only at found
  split at found
  · cases found
  · cases found
    exact fun _ mem => List.mem_takeWhile_imp mem

theorem isName_of_scanOpening? {before : Bool} {t rest : Text} {tag : Tag}
    (found : scanOpening? before t = some (tag, rest)) : IsName tag.name := by
  obtain ⟨⟨name, u⟩, read, found⟩ := Option.bind_eq_some_iff.1 found
  obtain ⟨⟨body, v⟩, -, found⟩ := Option.bind_eq_some_iff.1 found
  obtain ⟨-, eq⟩ := Option.ite_none_right_eq_some.1 found
  cases eq
  exact isName_of_name? read

theorem isName_of_scanClosing? {before : Bool} {t rest : Text} {tag : Tag}
    (found : scanClosing? before t = some (tag, rest)) : IsName tag.name := by
  obtain ⟨⟨name, u⟩, read, found⟩ := Option.bind_eq_some_iff.1 found
  dsimp only at found
  split at found
  · cases found
    exact isName_of_name? read
  · cases found
    exact isName_of_name? read
  · cases found

theorem isName_of_scanValue? {before : Bool} {t rest : Text} {tag : Tag}
    (found : scanValue? before t = some (tag, rest)) : IsName tag.name := by
  obtain ⟨⟨name, u⟩, read, found⟩ := Option.bind_eq_some_iff.1 found
  obtain ⟨⟨body, v⟩, -, found⟩ := Option.bind_eq_some_iff.1 found
  obtain ⟨-, eq⟩ := Option.ite_none_right_eq_some.1 found
  cases eq
  exact isName_of_name? read

theorem isName_of_scan? {t rest : Text} {tag : Tag} (found : scan? t = some (tag, rest)) : IsName tag.name := by
  obtain ⟨o, mem, behind⟩ := List.exists_of_findSome?_eq_some found
  obtain ⟨body, -, read⟩ := Option.bind_eq_some_iff.1 behind
  simp only [openers, List.mem_cons, List.not_mem_nil, or_false] at mem
  rcases mem with rfl | rfl | rfl | rfl | rfl | rfl
  · exact isName_of_scanOpening? read
  · exact isName_of_scanOpening? read
  · exact isName_of_scanClosing? read
  · exact isName_of_scanClosing? read
  · exact isName_of_scanValue? read
  · exact isName_of_scanValue? read

end Tag

/-! ## The tags of a source -/

namespace Token

/-- The tags among some fragments are called by names. -/
def Named (fragments : List Fragment) : Prop := ∀ tag, .tag tag ∈ fragments → Tag.IsName tag.name

theorem named_consChar (c : Char) {ls : List Lexeme} (named : Named (ls.map (·.fragment))) :
    Named ((consChar c ls).map (·.fragment)) := by
  intro tag mem
  refine named tag ?_
  unfold consChar at mem
  split at mem <;> simpa using mem

theorem named_lexemes (t : Text) : Named ((lexemes t).map (·.fragment)) := by
  fun_induction lexemes t with
  | case1 t tag rest found shorter ih =>
    intro tag' mem
    rcases List.mem_cons.1 mem with eq | mem
    · cases eq
      exact Tag.isName_of_scan? found
    · exact ih tag' mem
  | case2 => exact fun _ mem => nomatch mem
  | case3 c t none ih => exact named_consChar c ih

theorem fragments_place (ls : List Lexeme) :
    ∀ offset, (place offset ls).map (·.fragment) = ls.map (·.fragment) := by
  induction ls with
  | nil => exact fun _ => rfl
  | cons l ls ih => exact fun offset => congrArg (l.fragment :: ·) (ih _)

theorem named_settle (ts : List Token) :
    ∀ stripped, Named (ts.map (·.fragment)) → Named ((settle stripped ts).map (·.fragment)) := by
  induction ts with
  | nil => exact fun _ named => named
  | cons t ts ih =>
    intro stripped named tag mem
    obtain ⟨fragment, start, stop⟩ := t
    have rest : Named (ts.map (·.fragment)) := fun tag' mem' => named tag' (List.mem_cons_of_mem _ mem')
    cases fragment with
    | tag tag' =>
      rcases List.mem_cons.1 mem with eq | mem
      · exact named tag (eq ▸ List.mem_cons_self ..)
      · exact ih _ rest tag mem
    | text x =>
      rcases List.mem_cons.1 mem with eq | mem
      · cases eq
      · exact ih _ rest tag mem

/-- **Every tag of a source has a name of name characters.** -/
theorem named_tokenize (source : Text) : Named ((tokenize source).map (·.fragment)) := by
  apply named_settle
  rw [fragments_place]
  exact named_lexemes source

/-! ## Text in a source -/

@[simp] theorem lexemes_nil : lexemes [] = [] := by
  rw [lexemes]
  rfl

theorem lexemes_of_scan? {t rest : Text} {tag : Tag} (found : Tag.scan? t = some (tag, rest)) :
    lexemes t = ⟨.tag tag, t.take (t.length - rest.length)⟩ :: lexemes rest := by
  rw [lexemes]
  split
  · rename_i eq
    cases found.symm.trans eq
    rfl
  · rename_i eq
    cases found.symm.trans eq

theorem lexemes_of_none {c : Char} {t : Text} (none : Tag.scan? (c :: t) = none) :
    lexemes (c :: t) = consChar c (lexemes t) := by
  rw [lexemes]
  split
  · rename_i eq
    cases none.symm.trans eq
  · rfl

/-- A text in which no tag starts is one lexeme, if it is not continued by another text. -/
theorem lexemes_append_text {c : Char} {t rest : Text}
    (free : ∀ u d v, c :: t = u ++ d :: v → Tag.scan? (d :: v ++ rest) = none)
    (behind : ∀ x slice ls, lexemes rest ≠ ⟨.text x, slice⟩ :: ls) :
    lexemes (c :: t ++ rest) = ⟨.text (c :: t), c :: t⟩ :: lexemes rest := by
  have here : Tag.scan? (c :: (t ++ rest)) = none := free [] c t rfl
  rw [List.cons_append, lexemes_of_none here]
  cases t with
  | nil =>
    rw [List.nil_append, consChar]
    intro x slice ls eq
    exact absurd eq (behind x slice ls)
  | cons d t =>
    rw [lexemes_append_text (fun u d' v split => free (c :: u) d' v (congrArg (c :: ·) split)) behind]
    rfl

/-- No tag starts anywhere in a text. -/
def TagFree (t : Text) : Prop := ∀ a b, t = a ++ b → Tag.scan? b = none

theorem lexemes_of_tagFree {c : Char} {t : Text} (free : TagFree (c :: t)) :
    lexemes (c :: t) = [⟨.text (c :: t), c :: t⟩] := by
  have cut : lexemes (c :: t ++ []) = ⟨.text (c :: t), c :: t⟩ :: lexemes [] :=
    lexemes_append_text (fun u d v split => (List.append_nil (d :: v)).symm ▸ free u (d :: v) split) (by simp)
  rwa [List.append_nil, lexemes_nil] at cut

/-- **A source without tags is one text.** -/
theorem tokenize_of_tagFree {c : Char} {t : Text} (free : TagFree (c :: t)) :
    tokenize (c :: t) = [⟨.text (c :: t), 0, 0 + size (c :: t)⟩] := by
  rw [tokenize, lexemes_of_tagFree free]
  rfl

end Token

end TagTemplate
