/-
# Text -- characters, their byte sizes, blanks and cuts

A text is the list of its characters.  Positions in a text are counted in the
bytes of its UTF-8 form (`Text.size`), because that is what spans and offsets
report; everything else here is counted in characters.

Two classes of blank are kept apart on purpose: `isBlank` is a space or a tab,
the only characters whitespace control touches; `isSpace` is the Unicode
property White_Space, which decides where the name of a tag ends and what is
trimmed from its attributes.
-/

namespace TagTemplate

set_option autoImplicit false

abbrev Text := List Char

namespace Text

/-! ## Size -/

/-- The number of bytes of the UTF-8 form. -/
def size : Text → Nat
  | [] => 0
  | c :: t => c.utf8Size + size t

def bytes (t : Text) : List UInt8 := t.flatMap String.utf8EncodeChar

/-- The characters that fill exactly the first `n` bytes, if a character ends there. -/
def upTo? : Nat → Text → Option Text
  | 0, _ => some []
  | _ + 1, [] => none
  | n + 1, c :: t => if c.utf8Size ≤ n + 1 then (upTo? (n + 1 - c.utf8Size) t).map (c :: ·) else none

@[simp] theorem size_nil : size [] = 0 := rfl

@[simp] theorem size_cons (c : Char) (t : Text) : size (c :: t) = c.utf8Size + size t := rfl

@[simp] theorem size_append (s t : Text) : size (s ++ t) = size s + size t := by
  induction s with
  | nil => simp
  | cons c s ih => simp [ih, Nat.add_assoc]

/-! ## Blanks -/

def isBlank (c : Char) : Bool := c == ' ' || c == '\t'

/-- The ranges of code points with the Unicode property White_Space. -/
def spaceRanges : List (Nat × Nat) :=
  [(0x09, 0x0D), (0x20, 0x20), (0x85, 0x85), (0xA0, 0xA0), (0x1680, 0x1680), (0x2000, 0x200A),
   (0x2028, 0x2029), (0x202F, 0x202F), (0x205F, 0x205F), (0x3000, 0x3000)]

/-- Whether a character has the Unicode property White_Space. -/
def isSpace (c : Char) : Bool :=
  spaceRanges.any fun r => r.1 ≤ c.toNat && c.toNat ≤ r.2

/-- Drop the longest run at the end whose characters satisfy `p`. -/
def dropEndWhile (p : Char → Bool) (t : Text) : Text := (t.reverse.dropWhile p).reverse

def trimEnd (t : Text) : Text := dropEndWhile isSpace t

def trim (t : Text) : Text := (trimEnd t).dropWhile isSpace

/-! ## Cuts -/

/-- What follows `lead` in a text that starts with it. -/
def dropLead? (lead t : Text) : Option Text :=
  if lead.isPrefixOf t then some (t.drop lead.length) else none

/-- What precedes a final `c`. -/
def dropLast? (c : Char) (t : Text) : Option Text :=
  if t.getLast? = some c then some t.dropLast else none

/-- The text before and the text after the first occurrence of `needle`. -/
def cut? (needle : Text) : Text → Option (Text × Text)
  | [] => if needle.isEmpty then some ([], []) else none
  | c :: t =>
    match dropLead? needle (c :: t) with
    | some rest => some ([], rest)
    | none => (cut? needle t).map fun p => (c :: p.1, p.2)

/-- Whether a text starts with a character that satisfies `p`. -/
def startsWith (p : Char → Bool) : Text → Bool
  | [] => false
  | c :: _ => p c

theorem length_of_dropLead? {lead t rest : Text} (h : dropLead? lead t = some rest) :
    rest.length + lead.length = t.length := by
  unfold dropLead? at h
  split at h
  · rename_i hp
    obtain rfl := Option.some.inj h
    have := (List.isPrefixOf_iff_prefix.mp hp).length_le
    simp only [List.length_drop]
    omega
  · simp at h

theorem length_of_cut? {needle t a b : Text} (h : cut? needle t = some (a, b)) :
    a.length + needle.length + b.length = t.length := by
  induction t generalizing a b with
  | nil =>
    cases needle with
    | nil => simp [cut?] at h; simp [h]
    | cons n ns => simp [cut?] at h
  | cons c t ih =>
    unfold cut? at h
    split at h
    · rename_i rest hr
      have := length_of_dropLead? hr
      simp only [Option.some.injEq, Prod.mk.injEq] at h
      obtain ⟨rfl, rfl⟩ := h
      simp only [List.length_nil]
      omega
    · cases hc : cut? needle t with
      | none => simp [hc] at h
      | some p =>
        obtain ⟨x, y⟩ := p
        simp only [hc, Option.map_some, Option.some.injEq, Prod.mk.injEq] at h
        obtain ⟨rfl, rfl⟩ := h
        have := ih hc
        simp only [List.length_cons]
        omega

theorem dropLead?_eq_some_iff {lead t rest : Text} :
    dropLead? lead t = some rest ↔ t = lead ++ rest := by
  unfold dropLead?
  constructor
  · intro h
    split at h
    · rename_i hp
      obtain ⟨r, rfl⟩ := List.isPrefixOf_iff_prefix.mp hp
      simpa using h
    · simp at h
  · rintro rfl
    simp

theorem eq_of_cut? {needle t a b : Text} (h : cut? needle t = some (a, b)) :
    t = a ++ needle ++ b := by
  induction t generalizing a b with
  | nil =>
    cases needle with
    | nil => simp [cut?] at h; simp [h]
    | cons n ns => simp [cut?] at h
  | cons c t ih =>
    unfold cut? at h
    split at h
    · rename_i rest hr
      obtain ⟨rfl, rfl⟩ := Prod.mk.inj (Option.some.inj h)
      simpa using dropLead?_eq_some_iff.mp hr
    · obtain ⟨⟨x, y⟩, hc, e⟩ := Option.map_eq_some_iff.mp h
      obtain ⟨rfl, rfl⟩ := Prod.mk.inj e
      rw [ih hc]
      simp

/-! ## Numbers and lines -/

def decimal (n : Nat) : Text := Nat.toDigits 10 n

def joinWith (separator : Text) (ts : List Text) : Text := List.intercalate separator ts

end Text

end TagTemplate
