/-
# Source.Comment -- template comments are removed before tags are read

A template comment opens with `<!-- #` and ends at `-->`.  It is removed in one
of two ways (`comment?`):

* `wholeLine?` -- the comment starts on a fresh line, after blanks at most, and
  one of the closers after it ends its line.  The first such closer ends the
  comment, and the line goes with it: the blanks before and after, and the line
  break.  A closer with something else behind it does not count here, so the
  comment may run over several lines.
* `inline?` -- otherwise the comment ends at its first closer and is removed
  alone.

A comment that is never closed is text.
-/
import TagTemplate.Text

namespace TagTemplate.Source

set_option autoImplicit false

open Text

def commentOpener : Text := "<!-- #".toList

def commentCloser : Text := "-->".toList

/-- What follows a line that holds nothing more than blanks. -/
def endOfLine? (t : Text) : Option Text :=
  match t.dropWhile isBlank with
  | [] => some []
  | '\n' :: rest => some rest
  | '\r' :: '\n' :: rest => some rest
  | _ => none

def closeLine? : Text → Option Text
  | [] => none
  | c :: t =>
    match (dropLead? commentCloser (c :: t)).bind endOfLine? with
    | some rest => some rest
    | none => closeLine? t

/-- What follows a comment that takes its line with it, at the start of a line. -/
def wholeLine? (t : Text) : Option Text :=
  (dropLead? commentOpener (t.dropWhile isBlank)).bind closeLine?

def inline? (t : Text) : Option Text :=
  (dropLead? commentOpener t).bind fun body => (cut? commentCloser body).map (·.2)

/-- What follows a comment at this place, and whether a fresh line starts there. -/
def comment? (freshLine : Bool) (t : Text) : Option (Bool × Text) :=
  match (if freshLine then wholeLine? t else none) with
  | some rest => some (true, rest)
  | none => (inline? t).map fun rest => (false, rest)

/-! ## A comment is not empty -/

theorem length_of_endOfLine? {t rest : Text} (h : endOfLine? t = some rest) :
    rest.length ≤ t.length := by
  have le := (List.dropWhile_sublist (l := t) isBlank).length_le
  unfold endOfLine? at h
  split at h
  · obtain rfl := Option.some.inj h; simp
  · rename_i r e
    obtain rfl := Option.some.inj h
    rw [e, List.length_cons] at le; omega
  · rename_i r e
    obtain rfl := Option.some.inj h
    rw [e, List.length_cons, List.length_cons] at le; omega
  · simp at h

theorem length_of_closeLine? {t rest : Text} (h : closeLine? t = some rest) :
    rest.length ≤ t.length := by
  induction t with
  | nil => simp [closeLine?] at h
  | cons c t ih =>
    unfold closeLine? at h
    split at h
    · rename_i r e
      obtain rfl := Option.some.inj h
      obtain ⟨body, hb, hr⟩ := Option.bind_eq_some_iff.mp e
      have := length_of_dropLead? hb
      have := length_of_endOfLine? hr
      omega
    · have := ih h
      simp only [List.length_cons]; omega

theorem length_of_comment? {fresh next : Bool} {t rest : Text}
    (h : comment? fresh t = some (next, rest)) : rest.length < t.length := by
  unfold comment? at h
  split at h
  · rename_i r e
    obtain ⟨-, rfl⟩ := Prod.mk.inj (Option.some.inj h)
    split at e
    · obtain ⟨body, hb, hr⟩ := Option.bind_eq_some_iff.mp e
      have := (List.dropWhile_sublist (l := t) isBlank).length_le
      have := length_of_dropLead? hb
      have := length_of_closeLine? hr
      have : commentOpener.length = 6 := rfl
      omega
    · simp at e
  · obtain ⟨r, hr, e⟩ := Option.map_eq_some_iff.mp h
    obtain ⟨-, rfl⟩ := Prod.mk.inj e
    obtain ⟨body, hb, hc⟩ := Option.bind_eq_some_iff.mp hr
    obtain ⟨⟨a, b⟩, hab, rfl⟩ := Option.map_eq_some_iff.mp hc
    have := length_of_dropLead? hb
    have := length_of_cut? hab
    have : commentOpener.length = 6 := rfl
    simp only
    omega

/-! ## Removal -/

/-- Remove every template comment, left to right. -/
def removeCommentsFrom (freshLine : Bool) (t : Text) : Text :=
  match h : comment? freshLine t with
  | some (fresh, rest) =>
    have := length_of_comment? h
    removeCommentsFrom fresh rest
  | none =>
    match t with
    | [] => []
    | c :: t => c :: removeCommentsFrom (c == '\n') t
termination_by t.length

def removeComments (source : Text) : Text := removeCommentsFrom true source

end TagTemplate.Source
