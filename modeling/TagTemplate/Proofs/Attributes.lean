/-
# Proofs.Attributes -- attributes are a map, and their written form is read back

The attributes of a list of pairs hold under each key the last value that the list has for
it (`get?_ofPairs`) and keep their keys in strict order (`sorted_ofPairs`), so each key is
there once.

An `Attribute` is a pair that can be written: a key of key characters and a value without a
double quote, which may hold anything else.  The pairs that are found in the written form of
some attributes are theirs, in order (`pairsOf_print`).
-/
import Mathlib.Data.List.Induction
import Mathlib.Data.List.Lex
import Mathlib.Data.Char
import TagTemplate.Attributes

namespace TagTemplate

set_option autoImplicit false

open Text

namespace Attributes

/-! ## A map -/

def lastValue? (ps : List (Text × Text)) (key : Text) : Option Text :=
  ((ps.filter fun p => p.1 == key).getLast?).map (·.2)

/-- The keys are in strict order. -/
def Sorted (a : Attributes) : Prop := a.pairs.Pairwise fun p q => p.1 < q.1

theorem lastValue?_concat (ps : List (Text × Text)) (p : Text × Text) (key : Text) :
    lastValue? (ps ++ [p]) key = if p.1 = key then some p.2 else lastValue? ps key := by
  by_cases same : p.1 = key <;> simp [lastValue?, same]

theorem find?_insertPair (k v key : Text) (ps : List (Text × Text)) :
    ((insertPair k v ps).find? fun p => p.1 == key).map (·.2)
      = if k = key then some v else (ps.find? fun p => p.1 == key).map (·.2) := by
  induction ps with
  | nil => by_cases same : k = key <;> simp [insertPair, same]
  | cons p ps ih =>
    unfold insertPair
    split
    · rename_i eq
      by_cases same : k = key
      · simp [same]
      · have other : ¬ p.1 = key := eq ▸ same
        simp [same, other]
    · split
      · by_cases same : k = key <;> simp [same]
      · rename_i ne _
        by_cases here : p.1 = key
        · have other : ¬ k = key := fun eq => ne (eq.trans here.symm)
          simp [here, other]
        · simpa [List.find?_cons, here] using ih

theorem get?_insert (a : Attributes) (k v key : Text) :
    (a.insert k v).get? key = if k = key then some v else a.get? key :=
  find?_insertPair k v key a.pairs

theorem ofPairs_concat (ps : List (Text × Text)) (p : Text × Text) :
    ofPairs (ps ++ [p]) = (ofPairs ps).insert p.1 p.2 := by
  simp [ofPairs]

/-- **Of several pairs with one key the last one counts.** -/
theorem get?_ofPairs (ps : List (Text × Text)) (key : Text) : (ofPairs ps).get? key = lastValue? ps key := by
  induction ps using List.reverseRecOn with
  | nil => rfl
  | append_singleton ps p ih => rw [ofPairs_concat, get?_insert, ih, lastValue?_concat]

theorem mem_insertPair {k v : Text} {ps : List (Text × Text)} {p : Text × Text} (mem : p ∈ insertPair k v ps) :
    p = (k, v) ∨ p ∈ ps := by
  induction ps with
  | nil => exact .inl (List.mem_singleton.1 mem)
  | cons q ps ih =>
    unfold insertPair at mem
    split at mem
    · exact (List.mem_cons.1 mem).imp_right (List.mem_cons_of_mem q)
    · split at mem
      · exact List.mem_cons.1 mem
      · rcases List.mem_cons.1 mem with rfl | mem
        · exact .inr (List.mem_cons_self ..)
        · exact (ih mem).imp_right (List.mem_cons_of_mem q)

theorem sorted_insert {a : Attributes} (sorted : a.Sorted) (k v : Text) : (a.insert k v).Sorted := by
  obtain ⟨ps⟩ := a
  unfold Sorted insert at *
  dsimp only at *
  induction ps with
  | nil => exact List.pairwise_singleton ..
  | cons p ps ih =>
    obtain ⟨first, rest⟩ := List.pairwise_cons.1 sorted
    unfold insertPair
    split
    · rename_i eq
      exact List.pairwise_cons.2 ⟨fun q mem => eq ▸ first q mem, rest⟩
    · split
      · rename_i lt
        refine List.pairwise_cons.2 ⟨fun q mem => ?_, sorted⟩
        rcases List.mem_cons.1 mem with rfl | mem
        · exact lt
        · exact lt_trans lt (first q mem)
      · rename_i ne later
        refine List.pairwise_cons.2 ⟨fun q mem => ?_, ih rest⟩
        rcases mem_insertPair mem with rfl | mem
        · exact lt_of_le_of_ne (not_lt.1 later) (Ne.symm ne)
        · exact first q mem

/-- **Every key of the attributes is there once**, in the order of the keys. -/
theorem sorted_ofPairs (ps : List (Text × Text)) : (ofPairs ps).Sorted := by
  induction ps using List.reverseRecOn with
  | nil => exact List.Pairwise.nil
  | append_singleton ps p ih =>
    rw [ofPairs_concat]
    exact sorted_insert ih p.1 p.2

end Attributes

/-! ## Written attributes -/

/-- Whether a text consists of key characters. -/
def Attributes.IsKey (key : Text) : Prop := ∀ c ∈ key, isKeyChar c = true

instance (key : Text) : Decidable (Attributes.IsKey key) :=
  decidable_of_iff (key.all Attributes.isKeyChar = true) List.all_eq_true

/-- A pair that can be written in a tag. -/
structure Attribute where
  key : Text
  value : Text
  nonempty : key ≠ []
  is_key : Attributes.IsKey key
  unquoted : '"' ∉ value

namespace Attribute

def pair (a : Attribute) : Text × Text := (a.key, a.value)

def print (a : Attribute) : Text := a.key ++ "=\"".toList ++ a.value ++ ['"']

/-- The written form of some attributes, each set off by a space. -/
def printAll (as : List Attribute) : Text := as.flatMap fun a => ' ' :: a.print

end Attribute

namespace Attributes

theorem cut?_append {c : Char} {a : Text} (clear : c ∉ a) (b : Text) : cut? [c] (a ++ c :: b) = some (a, b) := by
  induction a with
  | nil => simp [cut?, dropLead?]
  | cons d a ih =>
    obtain ⟨ne, clear⟩ := not_or.1 (List.mem_cons.not.1 clear)
    have none : dropLead? [c] (d :: (a ++ c :: b)) = none := by simp [dropLead?, ne]
    rw [List.cons_append, cut?, none, ih clear]
    rfl

theorem pair?_print (a : Attribute) (t : Text) : pair? (a.print ++ t) = some (a.pair, t) := by
  have split : a.print ++ t = a.key ++ '=' :: '"' :: (a.value ++ '"' :: t) := by simp [Attribute.print]
  have ends : isKeyChar '=' = false := by decide
  have key : (a.print ++ t).takeWhile isKeyChar = a.key := by
    rw [split, List.takeWhile_append_of_pos a.is_key]
    simp [ends]
  have behind : (a.print ++ t).dropWhile isKeyChar = "=\"".toList ++ (a.value ++ '"' :: t) := by
    rw [split, List.dropWhile_append_of_pos a.is_key]
    simp [ends]
  simp only [pair?, key, behind, List.isEmpty_eq_false_iff.2 a.nonempty, Bool.false_eq_true, if_false,
    dropLead?_eq_some_iff.2 rfl, cut?_append a.unquoted]
  rfl

theorem pairsOf_nil : pairsOf [] = [] := by
  rw [pairsOf]
  rfl

theorem pairsOf_of_pair? {t rest : Text} {p : Text × Text} (found : pair? t = some (p, rest)) :
    pairsOf t = p :: pairsOf rest := by
  rw [pairsOf]
  split
  · rename_i eq
    cases found.symm.trans eq
    rfl
  · rename_i eq
    cases found.symm.trans eq

/-- A character that is in no key is passed over. -/
theorem pairsOf_cons {c : Char} (other : isKeyChar c = false) (t : Text) : pairsOf (c :: t) = pairsOf t := by
  have none : pair? (c :: t) = none := by simp [pair?, other]
  rw [pairsOf]
  split
  · rename_i eq
    cases none.symm.trans eq
  · rfl

theorem toNat_of_isKeyChar {c : Char} (key : isKeyChar c = true) : 45 ≤ c.toNat ∧ c.toNat ≤ 122 := by
  delta isKeyChar Char.isAlphanum Char.isAlpha Char.isUpper Char.isLower Char.isDigit at key
  simp only [Bool.or_eq_true, Bool.and_eq_true, decide_eq_true_eq, ge_iff_le, UInt32.le_iff_toNat_le, beq_iff_eq] at key
  rcases key with (((((⟨low, high⟩ | ⟨low, high⟩) | ⟨low, high⟩) | rfl) | rfl) | rfl)
  · exact ⟨Nat.le_trans (by decide) low, Nat.le_trans high (by decide)⟩
  · exact ⟨Nat.le_trans (by decide) low, Nat.le_trans high (by decide)⟩
  · exact ⟨Nat.le_trans (by decide) low, Nat.le_trans high (by decide)⟩
  all_goals decide

theorem toNat_of_isSpace {c : Char} (space : isSpace c = true) : c.toNat < 45 ∨ 122 < c.toNat := by
  simp only [isSpace, List.any_eq_true, Bool.and_eq_true, decide_eq_true_eq] at space
  obtain ⟨r, mem, low, high⟩ := space
  have apart : ∀ r ∈ spaceRanges, r.2 < 45 ∨ 122 < r.1 := by decide
  rcases apart r mem with lt | lt
  · exact .inl (Nat.lt_of_le_of_lt high lt)
  · exact .inr (Nat.lt_of_lt_of_le lt low)

/-- White space is in no key. -/
theorem isKeyChar_of_isSpace {c : Char} (space : isSpace c = true) : isKeyChar c = false := by
  cases key : isKeyChar c with
  | false => rfl
  | true =>
    have := toNat_of_isKeyChar key
    have := toNat_of_isSpace space
    omega

theorem pairsOf_dropWhile_isSpace (t : Text) : pairsOf (t.dropWhile isSpace) = pairsOf t := by
  induction t with
  | nil => rfl
  | cons c t ih =>
    rw [List.dropWhile_cons]
    split
    · rename_i space
      rw [ih, pairsOf_cons (isKeyChar_of_isSpace space)]
    · rfl

/-- **The pairs of some written attributes are theirs.** -/
theorem pairsOf_print (as : List Attribute) : pairsOf (Attribute.printAll as) = as.map (·.pair) := by
  induction as with
  | nil => exact pairsOf_nil
  | cons a as ih =>
    have split : Attribute.printAll (a :: as) = ' ' :: (a.print ++ Attribute.printAll as) := rfl
    rw [split, pairsOf_cons (by decide), pairsOf_of_pair? (pair?_print a _), ih, List.map_cons]

end Attributes

end TagTemplate
