/-
# Attributes -- the key and value pairs of a tag

Attributes are kept in the order of their keys, each key once.  `insert` puts a
value under its key and replaces what was there, so of two pairs with one key
the later one counts (`ofPairs`).

`parse` finds the pairs in the raw text of a tag.  A pair is a key, `=`, and a
value between double quotes; text that is no pair is passed over.
-/
import TagTemplate.Text

namespace TagTemplate

set_option autoImplicit false

open Text

/-- The attributes of a tag, sorted by key. -/
structure Attributes where
  pairs : List (Text × Text) := []
  deriving DecidableEq, Repr, Inhabited

namespace Attributes

/-! ## Lookup and insertion -/

def insertPair (key value : Text) : List (Text × Text) → List (Text × Text)
  | [] => [(key, value)]
  | p :: ps =>
    if key = p.1 then (key, value) :: ps
    else if key < p.1 then (key, value) :: p :: ps
    else p :: insertPair key value ps

def insert (a : Attributes) (key value : Text) : Attributes := ⟨insertPair key value a.pairs⟩

def get? (a : Attributes) (key : Text) : Option Text :=
  (a.pairs.find? fun p => p.1 == key).map (·.2)

/-- The number of keys. -/
def size (a : Attributes) : Nat := a.pairs.length

/-- The attributes a list of pairs describes; later pairs replace earlier ones. -/
def ofPairs (ps : List (Text × Text)) : Attributes :=
  ps.foldl (fun a p => a.insert p.1 p.2) {}

/-! ## Reading -/

def isKeyChar (c : Char) : Bool := c.isAlphanum || c == '_' || c == ':' || c == '-'

def pair? (t : Text) : Option ((Text × Text) × Text) :=
  let key := t.takeWhile isKeyChar
  if key.isEmpty then none
  else match dropLead? "=\"".toList (t.dropWhile isKeyChar) with
    | none => none
    | some quoted => (cut? ['"'] quoted).map fun p => ((key, p.1), p.2)

theorem length_of_pair? {t rest : Text} {p : Text × Text} (h : pair? t = some (p, rest)) :
    rest.length < t.length := by
  unfold pair? at h
  simp only at h
  split at h
  · simp at h
  · split at h
    · simp at h
    · rename_i quoted hq
      obtain ⟨⟨a, b⟩, hab, e⟩ := Option.map_eq_some_iff.mp h
      obtain ⟨-, rfl⟩ := Prod.mk.inj e
      have := (List.dropWhile_sublist (l := t) isKeyChar).length_le
      have := length_of_dropLead? hq
      have := length_of_cut? hab
      have : "=\"".toList.length = 2 := rfl
      simp only
      omega

def pairsOf (raw : Text) : List (Text × Text) :=
  match h : pair? raw with
  | some (p, rest) =>
    have := length_of_pair? h
    p :: pairsOf rest
  | none =>
    match raw with
    | [] => []
    | _ :: t => pairsOf t
termination_by raw.length

def parse (raw : Text) : Attributes := ofPairs (pairsOf raw)

end Attributes

end TagTemplate
