/-
# Tag -- the tags of a template and the grammar they are written in

A tag opens a block (`<tpl:Name attributes>`), closes one (`</tpl:Name>`) or
stands for a value (`{{tpl:Name attributes}}`).  Beside its name a tag carries
two strip modifiers, written `~`: after the opener it asks for the blanks before
the tag to go, before the terminator for those behind it.  An opening tag may
close itself with `/`.

`Tag.scan?` reads the tag at a place, if there is one.  It fails, and the text
stays text, when the name is missing, when no terminator stands outside double
quotes, or when something other than white space follows the name.
-/
import TagTemplate.Attributes

namespace TagTemplate

set_option autoImplicit false

open Text

/-- What a tag does, with what only tags of that shape carry. -/
inductive Tag.Shape where
  /-- Open a block; `raw` is the text of its attributes. -/
  | opening (raw : Text) (selfClosing : Bool)
  /-- Close a block. -/
  | closing
  /-- Stand for a value; `raw` is the text of its attributes. -/
  | value (raw : Text)
  deriving DecidableEq, Repr

structure Tag where
  name : Text
  shape : Tag.Shape
  /-- Blanks before the tag are to be removed. -/
  stripBefore : Bool := false
  /-- Blanks and one line break behind the tag are to be removed. -/
  stripAfter : Bool := false
  deriving DecidableEq, Repr

namespace Tag

def raw (tag : Tag) : Text :=
  match tag.shape with
  | .opening raw _ => raw
  | .closing => []
  | .value raw => raw

def attributes (tag : Tag) : Attributes := Attributes.parse tag.raw

def label (tag : Tag) : Text :=
  match tag.shape with
  | .value _ => "\x7b\x7btpl:".toList ++ tag.name ++ "\x7d\x7d".toList
  | _ => "<tpl:".toList ++ tag.name ++ ">".toList

/-! ## Reading a tag -/

def isNameChar (c : Char) : Bool := c.isAlphanum || c == '_'

def name? (t : Text) : Option (Text × Text) :=
  let name := t.takeWhile isNameChar
  if name.isEmpty then none else some (name, t.dropWhile isNameChar)

/-- The text before and after the first `needle` outside double quotes. -/
def cutUnquoted? (needle : Text) (quoted : Bool) : Text → Option (Text × Text)
  | [] => none
  | c :: t =>
    if c = '"' then (cutUnquoted? needle (!quoted) t).map fun p => (c :: p.1, p.2)
    else
      match (if quoted then none else dropLead? needle (c :: t)) with
      | some rest => some ([], rest)
      | none => (cutUnquoted? needle quoted t).map fun p => (c :: p.1, p.2)

/-- What is left of a tag's body without a final mark and the white space before that. -/
def dropMark? (mark : Char) (body : Text) : Option Text := (dropLast? mark body).map trimEnd

/-- The body of an opening tag without its final marks, and which of `~` and `/` there were. -/
def finalMarks (body : Text) : Text × Bool × Bool :=
  match dropMark? '~' body with
  | some b =>
    match dropMark? '/' b with
    | some b => (b, true, true)
    | none => (b, true, false)
  | none =>
    match dropMark? '/' body with
    | some b =>
      match dropMark? '~' b with
      | some b => (b, true, true)
      | none => (b, false, true)
    | none => (body, false, false)

/-- Whether a body may follow a name: it is empty or set off by white space. -/
def isSetOff (body : Text) : Bool := body.isEmpty || startsWith isSpace body

def scanOpening? (stripBefore : Bool) (t : Text) : Option (Tag × Text) := do
  let (name, t) ← name? t
  let (body, rest) ← cutUnquoted? ['>'] false t
  let (body, stripAfter, selfClosing) := finalMarks (trimEnd body)
  if isSetOff body then
    return (⟨name, .opening (trim body) selfClosing, stripBefore, stripAfter⟩, rest)
  else
    none

def scanClosing? (stripBefore : Bool) (t : Text) : Option (Tag × Text) := do
  let (name, t) ← name? t
  match t.dropWhile isBlank with
  | '~' :: '>' :: rest => return (⟨name, .closing, stripBefore, true⟩, rest)
  | '>' :: rest => return (⟨name, .closing, stripBefore, false⟩, rest)
  | _ => none

def scanValue? (stripBefore : Bool) (t : Text) : Option (Tag × Text) := do
  let (name, t) ← name? t
  let (body, rest) ← cutUnquoted? ['}', '}'] false t
  let body := trimEnd body
  let (body, stripAfter) :=
    match dropLast? '~' body with
    | some b => (b, true)
    | none => (body, false)
  if isSetOff body then
    return (⟨name, .value (trim body), stripBefore, stripAfter⟩, rest)
  else
    none

/-- The six ways a tag opens, each with the reader for what follows. -/
def openers : List (Text × (Text → Option (Tag × Text))) :=
  [("<tpl:".toList, scanOpening? false), ("<~tpl:".toList, scanOpening? true),
   ("</tpl:".toList, scanClosing? false), ("</~tpl:".toList, scanClosing? true),
   ("\x7b\x7btpl:".toList, scanValue? false), ("\x7b\x7b~tpl:".toList, scanValue? true)]

def scan? (t : Text) : Option (Tag × Text) :=
  openers.findSome? fun o => (dropLead? o.1 t).bind o.2

/-! ## A tag is not empty -/

theorem length_of_name? {t name rest : Text} (h : name? t = some (name, rest)) :
    rest.length ≤ t.length := by
  unfold name? at h
  simp only at h
  split at h
  · simp at h
  · obtain ⟨-, rfl⟩ := Prod.mk.inj (Option.some.inj h)
    exact (List.dropWhile_sublist _).length_le

theorem length_of_cutUnquoted? {needle t a b : Text} {quoted : Bool}
    (h : cutUnquoted? needle quoted t = some (a, b)) : b.length ≤ t.length := by
  induction t generalizing a b quoted with
  | nil => simp [cutUnquoted?] at h
  | cons c t ih =>
    unfold cutUnquoted? at h
    have step {q : Bool} (h : (cutUnquoted? needle q t).map (fun p => (c :: p.1, p.2)) = some (a, b)) :
        b.length ≤ (c :: t).length := by
      obtain ⟨⟨x, y⟩, hp, e⟩ := Option.map_eq_some_iff.mp h
      obtain ⟨-, rfl⟩ := Prod.mk.inj e
      have := ih hp
      simp only [List.length_cons]; omega
    split at h
    · exact step h
    · split at h
      · rename_i rest hr
        obtain ⟨-, rfl⟩ := Prod.mk.inj (Option.some.inj h)
        split at hr
        · simp at hr
        · have := length_of_dropLead? hr
          omega
      · exact step h

theorem length_of_scanOpening? {s : Bool} {t rest : Text} {tag : Tag}
    (h : scanOpening? s t = some (tag, rest)) : rest.length ≤ t.length := by
  simp only [scanOpening?, Option.bind_eq_bind, Option.bind_eq_some_iff, Prod.exists] at h
  obtain ⟨name, u, hn, body, r, hc, e⟩ := h
  have := length_of_name? hn
  have := length_of_cutUnquoted? hc
  obtain ⟨-, e⟩ := Option.ite_none_right_eq_some.mp e
  obtain ⟨-, rfl⟩ := Prod.mk.inj (Option.some.inj e)
  omega

theorem length_of_scanClosing? {s : Bool} {t rest : Text} {tag : Tag}
    (h : scanClosing? s t = some (tag, rest)) : rest.length ≤ t.length := by
  simp only [scanClosing?, Option.bind_eq_bind, Option.bind_eq_some_iff, Prod.exists] at h
  obtain ⟨name, u, hn, e⟩ := h
  have := length_of_name? hn
  have le := (List.dropWhile_sublist (l := u) isBlank).length_le
  split at e
  · rename_i r eq
    obtain ⟨-, rfl⟩ := Prod.mk.inj (Option.some.inj e)
    rw [eq, List.length_cons, List.length_cons] at le
    omega
  · rename_i r eq
    obtain ⟨-, rfl⟩ := Prod.mk.inj (Option.some.inj e)
    rw [eq, List.length_cons] at le
    omega
  · simp at e

theorem length_of_scanValue? {s : Bool} {t rest : Text} {tag : Tag}
    (h : scanValue? s t = some (tag, rest)) : rest.length ≤ t.length := by
  simp only [scanValue?, Option.bind_eq_bind, Option.bind_eq_some_iff, Prod.exists] at h
  obtain ⟨name, u, hn, body, r, hc, e⟩ := h
  have := length_of_name? hn
  have := length_of_cutUnquoted? hc
  obtain ⟨-, e⟩ := Option.ite_none_right_eq_some.mp e
  obtain ⟨-, rfl⟩ := Prod.mk.inj (Option.some.inj e)
  omega

/-- Every opener has characters of its own, so a tag takes up room. -/
theorem length_of_scan? {t rest : Text} {tag : Tag} (h : scan? t = some (tag, rest)) :
    rest.length < t.length := by
  obtain ⟨o, mem, ho⟩ := List.exists_of_findSome?_eq_some h
  obtain ⟨body, hb, hr⟩ := Option.bind_eq_some_iff.mp ho
  have lead := length_of_dropLead? hb
  have room : 0 < o.1.length ∧ rest.length ≤ body.length := by
    simp only [openers, List.mem_cons, List.not_mem_nil, or_false] at mem
    rcases mem with rfl | rfl | rfl | rfl | rfl | rfl
    · exact ⟨by decide, length_of_scanOpening? hr⟩
    · exact ⟨by decide, length_of_scanOpening? hr⟩
    · exact ⟨by decide, length_of_scanClosing? hr⟩
    · exact ⟨by decide, length_of_scanClosing? hr⟩
    · exact ⟨by decide, length_of_scanValue? hr⟩
    · exact ⟨by decide, length_of_scanValue? hr⟩
  omega

end Tag

end TagTemplate
