/-
# Proofs.Source.Cells -- what stripping takes off a text at once

Stripping goes through a text from left to right.  It takes a region of the rendering
language where one starts, and otherwise one character.  So a text is a list of cells,
and what stripping leaves of it is what it leaves of each of them (`stripSnippets_eq`).

Cells do not depend on what is before them: from any cell on, they are those of the text
from there on (`exists_cells`).  A brace that is a character is no opening delimiter, or
one that nothing closes (`of_snippet?_eq_none`).
-/
import TagTemplate.Proofs.Source.HostSnippet
import TagTemplate.Rendering.Delimiter

namespace TagTemplate

set_option autoImplicit false

open Text

namespace Source

/-- The regions of the rendering language in a text, left to right. -/
def regions (t : Text) : List Snippet :=
  match h : snippet? t with
  | some (s, rest) =>
    have := length_of_snippet? h
    s :: regions rest
  | none =>
    match t with
    | [] => []
    | _ :: t => regions t
termination_by t.length

theorem regions_nil : regions [] = [] := by
  rw [regions]
  rfl

theorem regions_of_snippet? {t rest : Text} {s : Snippet} (found : snippet? t = some (s, rest)) :
    regions t = s :: regions rest := by
  rw [regions]
  split
  · rename_i s' rest' eq
    rw [found] at eq
    cases eq
    rfl
  · rename_i eq
    rw [found] at eq
    cases eq

theorem regions_cons {c : Char} {t : Text} (nothing : snippet? (c :: t) = none) : regions (c :: t) = regions t := by
  rw [regions]
  split
  · rename_i s rest eq
    rw [nothing] at eq
    cases eq
  · rfl

theorem stripSnippets_nil (passLiterals : Bool) : stripSnippets passLiterals [] = [] := by
  rw [stripSnippets]
  rfl

theorem stripSnippets_of_snippet? {t rest : Text} {s : Snippet} (found : snippet? t = some (s, rest))
    (passLiterals : Bool) :
    stripSnippets passLiterals t = s.replacement passLiterals ++ stripSnippets passLiterals rest := by
  rw [stripSnippets]
  split
  · rename_i s' rest' eq
    rw [found] at eq
    cases eq
    rfl
  · rename_i eq
    rw [found] at eq
    cases eq

theorem stripSnippets_cons {c : Char} {t : Text} (nothing : snippet? (c :: t) = none) (passLiterals : Bool) :
    stripSnippets passLiterals (c :: t) = c :: stripSnippets passLiterals t := by
  rw [stripSnippets]
  split
  · rename_i s rest eq
    rw [nothing] at eq
    cases eq
  · rfl

theorem snippet?_of_ne {c : Char} (ne : c ≠ '{') (t : Text) : snippet? (c :: t) = none := by
  rw [Option.eq_none_iff_forall_ne_some]
  rintro ⟨s, rest⟩ found
  exact ne (List.cons.inj (snippet?_eq_some_iff.1 found).1).1

theorem Unclosed.snippet? {t : Text} (unclosed : Unclosed t) : Source.snippet? t = none := by
  rw [Option.eq_none_iff_forall_ne_some]
  rintro ⟨s, rest⟩ found
  obtain ⟨rfl, -, mark, -⟩ := snippet?_eq_some_iff.1 found
  have split : s.written ++ rest = ('{' :: s.opener :: s.body) ++ s.closer :: '}' :: rest := by simp [Snippet.written]
  rw [unclosed _ _ _ split] at mark
  cases mark

/-- Nothing is stripped where no region ends. -/
theorem Unclosed.stripSnippets {t : Text} (unclosed : Unclosed t) (passLiterals : Bool) :
    Source.stripSnippets passLiterals t = t := by
  induction t with
  | nil => exact stripSnippets_nil passLiterals
  | cons c t ih => rw [stripSnippets_cons unclosed.snippet?, ih (unclosed_cons_iff.1 unclosed).2]

/-- No region starts next to where nothing is closed. -/
theorem Unclosed.snippet?_cons {u : Text} (unclosed : Unclosed u) (m : Char) : Source.snippet? (m :: u) = none := by
  by_cases brace : m = '{'
  · subst brace
    cases u with
    | nil => rfl
    | cons d u =>
      rw [Source.snippet?, (close?_eq_none_iff u).2 (unclosed_cons_iff.1 unclosed).2]
      exact ite_self none
  · exact snippet?_of_ne brace u

/-- Nothing is stripped from an opening delimiter on that nothing closes. -/
theorem stripSnippets_cons_of_unclosed (m : Char) {u : Text} (unclosed : Unclosed u) (passLiterals : Bool) :
    Source.stripSnippets passLiterals (m :: u) = m :: u := by
  rw [stripSnippets_cons (unclosed.snippet?_cons m), unclosed.stripSnippets]

theorem Snippet.replacement_of_mismatched {s : Snippet} (mismatched : s.closer ≠ matchingMark s.opener)
    (passLiterals : Bool) : s.replacement passLiterals = s.written := by
  simp [Snippet.replacement, Snippet.isForeign, mismatched]

/-! ## Cells -/

/-- What stripping takes off a text at once. -/
inductive Cell where
  | char (c : Char)
  | region (s : Snippet)
  deriving DecidableEq, Repr

def cells (t : Text) : List Cell :=
  match h : snippet? t with
  | some (s, rest) =>
    have := length_of_snippet? h
    .region s :: cells rest
  | none =>
    match t with
    | [] => []
    | c :: t => .char c :: cells t
termination_by t.length

/-- What stripping leaves of some cells. -/
def kept (passLiterals : Bool) (cs : List Cell) : Text :=
  cs.flatMap fun
    | .char c => [c]
    | .region s => s.replacement passLiterals

@[simp] theorem kept_nil (passLiterals : Bool) : kept passLiterals [] = [] := rfl

@[simp] theorem kept_char (passLiterals : Bool) (c : Char) (cs : List Cell) :
    kept passLiterals (.char c :: cs) = c :: kept passLiterals cs := rfl

@[simp] theorem kept_region (passLiterals : Bool) (s : Snippet) (cs : List Cell) :
    kept passLiterals (.region s :: cs) = s.replacement passLiterals ++ kept passLiterals cs := rfl

theorem cells_nil : cells [] = [] := by
  rw [cells]
  rfl

theorem cells_of_snippet? {t rest : Text} {s : Snippet} (found : snippet? t = some (s, rest)) :
    cells t = .region s :: cells rest := by
  rw [cells]
  split
  · rename_i s' rest' eq
    rw [found] at eq
    cases eq
    rfl
  · rename_i eq
    rw [found] at eq
    cases eq

theorem cells_cons {c : Char} {t : Text} (nothing : snippet? (c :: t) = none) : cells (c :: t) = .char c :: cells t := by
  rw [cells]
  split
  · rename_i s rest eq
    rw [nothing] at eq
    cases eq
  · rfl

/-- **Stripping leaves what it leaves of each cell.** -/
theorem stripSnippets_eq (passLiterals : Bool) (t : Text) : stripSnippets passLiterals t = kept passLiterals (cells t) := by
  fun_induction cells t with
  | case1 t s rest found shorter ih => rw [stripSnippets_of_snippet? found, kept_region, ih]
  | case2 => exact stripSnippets_nil passLiterals
  | case3 c t nothing ih => rw [stripSnippets_cons nothing, kept_char, ih]

/-- The first cell of a text. -/
theorem cells_eq_cons {t : Text} {k : Cell} {cs : List Cell} (eq : cells t = k :: cs) :
    (∃ s rest, k = .region s ∧ snippet? t = some (s, rest) ∧ cells rest = cs) ∨
      ∃ c rest, k = .char c ∧ t = c :: rest ∧ snippet? t = none ∧ cells rest = cs := by
  cases found : snippet? t with
  | some p =>
    obtain ⟨s, rest⟩ := p
    rw [cells_of_snippet? found] at eq
    obtain ⟨rfl, rfl⟩ := List.cons.inj eq
    exact .inl ⟨s, rest, rfl, rfl, rfl⟩
  | none =>
    cases t with
    | nil =>
      rw [cells_nil] at eq
      cases eq
    | cons c rest =>
      rw [cells_cons found] at eq
      obtain ⟨rfl, rfl⟩ := List.cons.inj eq
      exact .inr ⟨c, rest, rfl, rfl, rfl, rfl⟩

/-- **Cells are those of the text from there on.** -/
theorem exists_cells {t : Text} {before cs : List Cell} (split : cells t = before ++ cs) : ∃ u, cells u = cs := by
  induction before generalizing t with
  | nil => exact ⟨t, split⟩
  | cons k before ih =>
    rcases cells_eq_cons split with ⟨_, _, -, -, rest⟩ | ⟨_, _, -, -, -, rest⟩ <;> exact ih rest

/-- Where nothing is closed, all cells are characters. -/
theorem Unclosed.cells {t : Text} (unclosed : Unclosed t) : Source.cells t = t.map .char := by
  induction t with
  | nil => exact cells_nil
  | cons c t ih => rw [cells_cons unclosed.snippet?, ih (unclosed_cons_iff.1 unclosed).2, List.map_cons]

/-- What stands at a brace where no region is: no delimiter, or one that nothing closes. -/
theorem of_snippet?_eq_none {t : Text} (nothing : snippet? ('{' :: t) = none) :
    Piece.opens ('{' :: t) = false ∨ ∃ m u, t = m :: u ∧ Unclosed u := by
  match t with
  | [] => exact .inl rfl
  | m :: u =>
    cases mark : isOpenerMark m with
    | false => exact .inl mark
    | true =>
      rw [snippet?, if_pos mark, Option.map_eq_none_iff, close?_eq_none_iff] at nothing
      exact .inr ⟨m, u, rfl, nothing⟩

end Source

end TagTemplate
