/-
# Proofs.Source.HostSnippet -- where regions of the rendering language end

A text is unclosed if no closing delimiter of any kind stands in it (`Unclosed`).  A
region takes everything up to the first closing delimiter, so its body is unclosed,
and where there is none there is no region (`close?_eq_some_iff`, `close?_eq_none_iff`).
-/
import TagTemplate.Source.HostSnippet

namespace TagTemplate.Source

set_option autoImplicit false

open Text

/-- No closing delimiter stands in a text. -/
def Unclosed (t : Text) : Prop := ∀ a k b, t = a ++ k :: '}' :: b → isCloserMark k = false

theorem unclosed_nil : Unclosed [] := by
  intro a k b split
  cases a <;> cases split

theorem unclosed_cons_iff {c : Char} {t : Text} :
    Unclosed (c :: t) ↔ (t.head? = some '}' → isCloserMark c = false) ∧ Unclosed t := by
  constructor
  · intro unclosed
    refine ⟨fun first => ?_, fun a k b split => unclosed (c :: a) k b (congrArg (c :: ·) split)⟩
    cases t with
    | nil => cases first
    | cons d t =>
      obtain rfl : d = '}' := Option.some.inj first
      exact unclosed [] c t rfl
  · rintro ⟨first, unclosed⟩ a k b split
    cases a with
    | nil =>
      obtain ⟨rfl, rfl⟩ := List.cons.inj split
      exact first rfl
    | cons d a => exact unclosed a k b (List.cons.inj split).2

theorem unclosed_singleton (c : Char) : Unclosed [c] := unclosed_cons_iff.2 ⟨nofun, unclosed_nil⟩

theorem unclosed_of_not_mem {t : Text} (absent : '}' ∉ t) : Unclosed t := by
  rintro a k b rfl
  exact absurd (List.mem_append_right _ (List.mem_cons_of_mem _ (List.mem_cons_self ..))) absent

theorem Unclosed.of_append {s t : Text} (unclosed : Unclosed (s ++ t)) : Unclosed t :=
  fun a k b split => unclosed (s ++ a) k b (by rw [split, List.append_assoc])

theorem close?_eq_none_iff (t : Text) : close? t = none ↔ Unclosed t := by
  induction t with
  | nil => exact iff_of_true rfl unclosed_nil
  | cons c t ih =>
    rw [unclosed_cons_iff, ← ih]
    cases t with
    | nil => simp [close?]
    | cons d t =>
      rw [close?]
      by_cases closes : (isCloserMark c && d == '}') = true
      · rw [if_pos closes]
        obtain ⟨mark, brace⟩ := Bool.and_eq_true_iff.1 closes
        obtain rfl := beq_iff_eq.1 brace
        simp [mark]
      · rw [if_neg closes, Option.map_eq_none_iff]
        refine (and_iff_right fun first => ?_).symm
        obtain rfl : d = '}' := Option.some.inj first
        simpa using closes

/-- **A region ends at the first closing delimiter.** -/
theorem close?_eq_some_iff {t body rest : Text} {c : Char} :
    close? t = some (body, c, rest) ↔
      t = body ++ c :: '}' :: rest ∧ isCloserMark c = true ∧ Unclosed (body ++ [c]) := by
  induction t generalizing body with
  | nil =>
    refine iff_of_false (fun found => by cases found) ?_
    rintro ⟨split, -⟩
    cases body <;> cases split
  | cons a t ih =>
    cases t with
    | nil =>
      refine iff_of_false (fun found => by cases found) ?_
      rintro ⟨split, -⟩
      cases body with
      | nil => cases split
      | cons d body => cases body <;> cases (List.cons.inj split).2
    | cons b t =>
      rw [close?]
      by_cases closes : (isCloserMark a && b == '}') = true
      · rw [if_pos closes]
        obtain ⟨mark, brace⟩ := Bool.and_eq_true_iff.1 closes
        obtain rfl := beq_iff_eq.1 brace
        constructor
        · intro eq
          cases eq
          exact ⟨rfl, mark, unclosed_singleton _⟩
        · rintro ⟨split, -, unclosed⟩
          cases body with
          | nil => cases split; rfl
          | cons d body =>
            obtain ⟨rfl, tail⟩ := List.cons.inj split
            have first : (body ++ [c]).head? = some '}' := by
              cases body with
              | nil => rw [← (List.cons.inj tail).1]; rfl
              | cons e body => rw [← (List.cons.inj tail).1]; rfl
            rw [(unclosed_cons_iff.1 unclosed).1 first] at mark
            cases mark
      · rw [if_neg closes]
        constructor
        · intro eq
          obtain ⟨⟨x, k, r⟩, found, eq⟩ := Option.map_eq_some_iff.1 eq
          cases eq
          obtain ⟨split, mark, unclosed⟩ := ih.1 found
          refine ⟨congrArg (a :: ·) split, mark, unclosed_cons_iff.2 ⟨fun first => ?_, unclosed⟩⟩
          have brace : b = '}' := by
            cases x with
            | nil =>
              obtain rfl : c = '}' := Option.some.inj first
              exact (List.cons.inj split).1
            | cons e x => exact (List.cons.inj split).1.trans (Option.some.inj first)
          simpa [brace] using closes
        · rintro ⟨split, mark, unclosed⟩
          cases body with
          | nil =>
            obtain ⟨rfl, tail⟩ := List.cons.inj split
            obtain ⟨rfl, rfl⟩ := List.cons.inj tail
            simp [mark] at closes
          | cons d body =>
            obtain ⟨rfl, tail⟩ := List.cons.inj split
            rw [ih.2 ⟨tail, mark, (unclosed_cons_iff.1 unclosed).2⟩]
            rfl

theorem snippet?_eq_some_iff {t rest : Text} {s : Snippet} :
    snippet? t = some (s, rest) ↔ t = s.written ++ rest ∧ isOpenerMark s.opener = true ∧
      isCloserMark s.closer = true ∧ Unclosed (s.body ++ [s.closer]) := by
  constructor
  · intro found
    unfold snippet? at found
    split at found
    · split at found
      · rename_i m t opener
        obtain ⟨⟨body, c, r⟩, closed, eq⟩ := Option.map_eq_some_iff.1 found
        cases eq
        obtain ⟨rfl, mark, unclosed⟩ := close?_eq_some_iff.1 closed
        exact ⟨by simp [Snippet.written], opener, mark, unclosed⟩
      · cases found
    · cases found
  · rintro ⟨rfl, opener, mark, unclosed⟩
    have closed : close? (s.body ++ s.closer :: '}' :: rest) = some (s.body, s.closer, rest) :=
      close?_eq_some_iff.2 ⟨rfl, mark, unclosed⟩
    have shape : s.written ++ rest = '{' :: s.opener :: (s.body ++ s.closer :: '}' :: rest) := by
      simp [Snippet.written]
    rw [shape, snippet?, if_pos opener, closed]
    rfl

end TagTemplate.Source
