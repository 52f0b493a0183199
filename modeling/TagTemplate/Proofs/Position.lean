/-
# Proofs.Position -- lines and columns are coordinates

A position counts lines in line feeds and columns in characters, an offset counts
bytes.  Where a character ends (`boundaries`) nothing is lost between the two: positions
come in the order of the offsets, by line and then by column, and each of them leads
back to its offset (`toOffset?`): where its line starts, and as many bytes on as the
characters before its column have.  A position that is not in the text leads nowhere,
and all offsets behind the text have the position of its end (`ofOffset_coordinates`).

Both ways part a text in front of a line: what is above the line is empty or ends in a
line feed (`EndsLine`), and the line has none up to the column.  A carriage return is a
character like any other.
-/
import Mathlib.Data.List.DropRight
import Mathlib.Data.Prod.Lex
import Mathlib.Order.Monotone.Defs
import TagTemplate.Position
import TagTemplate.Proofs.Token.Offsets

namespace TagTemplate

set_option autoImplicit false

open Text

namespace Position

/-! ## Lines -/

/-- A line can start behind a text: it is empty or ends in a line feed. -/
def EndsLine (above : Text) : Prop := above = [] ∨ above.getLast? = some '\n'

theorem exists_last_line (t : Text) : ∃ above line, t = above ++ line ∧ EndsLine above ∧ '\n' ∉ line := by
  refine ⟨t.rdropWhile (· != '\n'), t.rtakeWhile (· != '\n'), List.rdropWhile_append_rtakeWhile.symm, ?_, fun mem => ?_⟩
  · by_cases none : t.rdropWhile (· != '\n') = []
    · exact .inl none
    · right
      have last := List.rdropWhile_last_not (· != '\n') t none
      rw [List.getLast?_eq_some_getLast none]
      exact congrArg some (by simpa only [bne_iff_ne, ne_eq, not_not] using last)
  · simpa using List.mem_rtakeWhile_imp mem

theorem lastLine_append {above line : Text} (ends : EndsLine above) (unbroken : '\n' ∉ line) :
    lastLine (above ++ line) = line := by
  have stays : ∀ c ∈ line.reverse, (c != '\n') = true := by
    intro c mem
    rw [bne_iff_ne]
    rintro rfl
    exact unbroken (List.mem_reverse.1 mem)
  have stops : above.reverse.takeWhile (· != '\n') = [] := by
    rcases ends with rfl | last
    · rfl
    · obtain ⟨lines, rfl⟩ := List.getLast?_eq_some_iff.1 last
      simp
  rw [lastLine, List.reverse_append, List.takeWhile_append_of_pos stays, stops, List.append_nil, List.reverse_reverse]

/-! ## Positions -/

theorem before_append (t rest : Text) : before (t ++ rest) (size t) = t := by
  rw [before, upTo?_eq_some_iff.2 ⟨List.prefix_append .., rfl⟩, Option.getD_some]

theorem before_of_size_le {source : Text} {offset : Nat} (beyond : size source ≤ offset) :
    before source offset = source := by
  unfold before
  cases found : upTo? offset source with
  | none => rfl
  | some t =>
    obtain ⟨⟨rest, rfl⟩, rfl⟩ := upTo?_eq_some_iff.1 found
    have nothing : rest = [] := Token.eq_nil_of_size (by rw [size_append] at beyond; omega)
    rw [nothing, List.append_nil]
    rfl

theorem line_ofOffset (t rest : Text) : (ofOffset (t ++ rest) (size t)).line = t.count '\n' + 1 := by
  unfold ofOffset
  rw [before_append]

/-- The position behind a line is that of its length, as far as it is read. -/
theorem ofOffset_line {above line : Text} (ends : EndsLine above) (unbroken : '\n' ∉ line) (rest : Text) :
    ofOffset (above ++ line ++ rest) (size (above ++ line)) = ⟨above.count '\n' + 1, line.length + 1⟩ := by
  unfold ofOffset
  rw [before_append]
  dsimp only
  rw [lastLine_append ends unbroken, List.count_append, List.count_eq_zero_of_not_mem unbroken, Nat.add_zero]

/-- The position behind a text: one more than its line feeds, and one more than the characters of its last line. -/
def After (p : Position) (t : Text) : Prop :=
  ∃ lines line, t = lines ++ line ∧ (lines = [] ∨ lines.getLast? = some '\n') ∧ '\n' ∉ line ∧
    p.line = t.count '\n' + 1 ∧ p.column = line.length + 1

theorem after_ofOffset (before rest : Text) : (ofOffset (before ++ rest) (size before)).After before := by
  obtain ⟨above, line, rfl, ends, unbroken⟩ := exists_last_line before
  refine ⟨above, line, rfl, ends, unbroken, line_ofOffset _ _, ?_⟩
  rw [ofOffset_line ends unbroken]

/-! ## Back to offsets -/

/-- A text parted behind some line feeds, if it has as many: where it starts, or behind the last of them. -/
def partBehind? : Nat → Text → Option (Text × Text)
  | 0, t => some ([], t)
  | _ + 1, [] => none
  | feeds + 1, c :: t =>
    (partBehind? (if c = '\n' then feeds else feeds + 1) t).map fun parts => (c :: parts.1, parts.2)

/-- The offset of a position: the start of its line, and the bytes of the characters of that line before the column. -/
def toOffset? (source : Text) : Position → Option Nat
  | ⟨line + 1, column + 1⟩ =>
    (partBehind? line source).bind fun parts =>
      let here := parts.2.takeWhile (· != '\n')
      if column ≤ here.length then some (size parts.1 + size (here.take column)) else none
  | _ => none

/-- A text that ends in a line feed is what is above, for as many line feeds as it has. -/
theorem partBehind?_append {above : Text} (ends : EndsLine above) (below : Text) :
    partBehind? (above.count '\n') (above ++ below) = some (above, below) := by
  induction above with
  | nil => rw [List.count_nil, List.nil_append, partBehind?]
  | cons c above ih =>
    by_cases last : above = []
    · obtain rfl : c = '\n' := by simpa [EndsLine, last] using ends
      subst last
      simp [partBehind?]
    · have last_above : above.getLast? = some '\n' := by
        rcases ends with none | some
        · cases none
        · rwa [List.getLast?_cons_of_ne_nil last] at some
      have rest := ih (.inr last_above)
      by_cases feed : c = '\n'
      · simp [partBehind?, feed, rest]
      · obtain ⟨feeds, count⟩ :=
          Nat.exists_eq_add_one_of_ne_zero (Nat.ne_of_gt (List.count_pos_iff.2 (List.mem_of_getLast? last_above)))
        rw [List.count_cons_of_ne feed, count, List.cons_append, partBehind?, if_neg feed, ← count, rest]
        rfl

theorem of_partBehind? {feeds : Nat} {t above below : Text} (parted : partBehind? feeds t = some (above, below)) :
    t = above ++ below ∧ above.count '\n' = feeds ∧ EndsLine above := by
  induction t generalizing feeds above with
  | nil =>
    cases feeds with
    | zero =>
      cases parted
      exact ⟨rfl, rfl, .inl rfl⟩
    | succ feeds => cases parted
  | cons c t ih =>
    cases feeds with
    | zero =>
      cases parted
      exact ⟨rfl, rfl, .inl rfl⟩
    | succ feeds =>
      obtain ⟨⟨above', below'⟩, inner, eq⟩ := Option.map_eq_some_iff.1 parted
      cases eq
      obtain ⟨rfl, count, ends⟩ := ih inner
      refine ⟨rfl, ?_, ?_⟩
      · rw [List.count_cons, count]
        by_cases feed : c = '\n' <;> simp [feed]
      · right
        rcases ends with rfl | last
        · by_cases feed : c = '\n'
          · rw [feed]
            rfl
          · rw [if_neg feed] at count
            cases count
        · rw [List.getLast?_cons, last]
          rfl

/-- A position leads to the offset behind the characters of its line before its column, if the line has as many. -/
theorem toOffset?_eq_some_iff {source : Text} {p : Position} {offset : Nat} :
    toOffset? source p = some offset ↔ ∃ above line rest, source = above ++ line ++ rest ∧ EndsLine above ∧
      '\n' ∉ line ∧ p = ⟨above.count '\n' + 1, line.length + 1⟩ ∧ offset = size (above ++ line) := by
  constructor
  · intro found
    unfold toOffset? at found
    split at found
    · rename_i feeds column
      obtain ⟨⟨above, below⟩, parted, inside⟩ := Option.bind_eq_some_iff.1 found
      obtain ⟨rfl, rfl, ends⟩ := of_partBehind? parted
      obtain ⟨le, eq⟩ := Option.ite_none_right_eq_some.1 inside
      obtain ⟨rest, split⟩ := (List.take_prefix column _).trans (List.takeWhile_prefix (l := below) (· != '\n'))
      refine ⟨above, (below.takeWhile (· != '\n')).take column, rest, ?_, ends, fun mem => ?_, ?_, ?_⟩
      · rw [List.append_assoc, split]
      · have stays := List.mem_takeWhile_imp (p := (· != '\n')) (List.mem_of_mem_take mem)
        exact absurd rfl (bne_iff_ne.1 stays)
      · rw [List.length_take_of_le le]
      · rw [size_append]
        exact (Option.some.inj eq).symm
    · cases found
  · rintro ⟨above, line, rest, rfl, ends, unbroken, rfl, rfl⟩
    have stays : ∀ c ∈ line, (c != '\n') = true := by
      intro c mem
      rw [bne_iff_ne]
      rintro rfl
      exact unbroken mem
    unfold toOffset?
    dsimp only
    rw [List.append_assoc, partBehind?_append ends, Option.bind_some]
    dsimp only
    rw [List.takeWhile_append_of_pos stays, if_pos (by simp), List.take_left, size_append]

/-! ## Coordinates -/

/-- The offsets in a text where a character ends, and where the text starts. -/
def boundaries (source : Text) : Set Nat := {offset | (upTo? offset source).isSome}

instance (source : Text) (offset : Nat) : Decidable (offset ∈ boundaries source) :=
  inferInstanceAs (Decidable ((upTo? offset source).isSome = true))

def key (p : Position) : Nat ×ₗ Nat := toLex (p.line, p.column)

theorem mem_boundaries_iff {source : Text} {offset : Nat} :
    offset ∈ boundaries source ↔ ∃ t rest, source = t ++ rest ∧ offset = size t := by
  constructor
  · intro there
    obtain ⟨t, found⟩ := Option.isSome_iff_exists.1 there
    obtain ⟨⟨rest, rfl⟩, rfl⟩ := upTo?_eq_some_iff.1 found
    exact ⟨t, rest, rfl, rfl⟩
  · rintro ⟨t, rest, rfl, rfl⟩
    exact Option.isSome_iff_exists.2 ⟨t, upTo?_eq_some_iff.2 ⟨List.prefix_append .., rfl⟩⟩

/-- Some characters further on the position is a later one: on a later line if there is a line feed among them, in a
later column if not. -/
theorem key_lt_key (t rest : Text) {more : Text} (some_more : more ≠ []) :
    (ofOffset (t ++ more ++ rest) (size t)).key < (ofOffset (t ++ more ++ rest) (size (t ++ more))).key := by
  have here := line_ofOffset t (more ++ rest)
  rw [← List.append_assoc] at here
  rw [key, key, Prod.Lex.toLex_lt_toLex]
  by_cases feed : '\n' ∈ more
  · left
    have feeds := List.count_pos_iff.2 feed
    dsimp only
    rw [here, line_ofOffset, List.count_append]
    omega
  · right
    obtain ⟨above, line, rfl, ends, unbroken⟩ := exists_last_line t
    have unbroken' : '\n' ∉ line ++ more := by simp [unbroken, feed]
    have longer := List.length_pos_iff.2 some_more
    have later := ofOffset_line ends unbroken' rest
    have sooner := ofOffset_line ends unbroken (more ++ rest)
    rw [← List.append_assoc] at later sooner
    rw [later, sooner]
    dsimp only
    rw [List.length_append]
    exact ⟨rfl, by omega⟩

/-- **Lines and columns are coordinates of a text.**  They rise with the offset, position by position there is one
offset, and what is beyond the end has the position of the end. -/
theorem ofOffset_coordinates (source : Text) :
    StrictMonoOn (fun offset => (ofOffset source offset).key) (boundaries source) ∧
    (∀ p offset, toOffset? source p = some offset ↔ offset ∈ boundaries source ∧ ofOffset source offset = p) ∧
    ∀ offset, size source ≤ offset → ofOffset source offset = ofOffset source (size source) := by
  refine ⟨fun a there b there' less => ?_, fun p offset => ?_, fun offset beyond => ?_⟩
  · obtain ⟨t, rest, rfl, rfl⟩ := mem_boundaries_iff.1 there
    obtain ⟨u, rest', eq, rfl⟩ := mem_boundaries_iff.1 there'
    -- The text before the greater offset goes on from the text before the lesser one.
    obtain ⟨more, rfl⟩ : t <+: u := by
      rcases List.prefix_or_prefix_of_prefix (List.prefix_append t rest) (eq ▸ List.prefix_append u rest') with
        lead | ⟨more, rfl⟩
      · exact lead
      · rw [size_append] at less
        omega
    have some_more : more ≠ [] := by
      rintro rfl
      rw [List.append_nil] at less
      exact Nat.lt_irrefl _ less
    rw [eq]
    exact key_lt_key t rest' some_more
  · rw [toOffset?_eq_some_iff, mem_boundaries_iff]
    constructor
    · rintro ⟨above, line, rest, rfl, ends, unbroken, rfl, rfl⟩
      exact ⟨⟨above ++ line, rest, rfl, rfl⟩, ofOffset_line ends unbroken rest⟩
    · rintro ⟨⟨t, rest, rfl, rfl⟩, rfl⟩
      obtain ⟨above, line, rfl, ends, unbroken⟩ := exists_last_line t
      exact ⟨above, line, rest, rfl, ends, unbroken, ofOffset_line ends unbroken rest, rfl⟩
  · unfold ofOffset
    rw [before_of_size_le beyond, before_of_size_le (Nat.le_refl _)]

/-- Two lines, and an empty third one behind them.  The carriage return is a character of the first line, and the
line feed behind it is where that line ends. -/
theorem ofOffset_coordinates_mixed :
    let source := ['é', '\r', '\n', 'x', '\n']
    toOffset? source ⟨1, 3⟩ = some 3 ∧ toOffset? source ⟨3, 1⟩ = some 6 ∧
      (ofOffset source 3).key < (ofOffset source 4).key ∧ ofOffset source 7 = ⟨3, 1⟩ := by
  intro source
  obtain ⟨rises, leads_back, beyond⟩ := ofOffset_coordinates source
  refine ⟨(leads_back _ _).2 ⟨?_, ?_⟩, (leads_back _ _).2 ⟨?_, ?_⟩, rises ?_ ?_ ?_, (beyond 7 ?_).trans ?_⟩
  all_goals decide

end Position

end TagTemplate
