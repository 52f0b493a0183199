/-
# Proofs.Rendering.Statements -- the statements that compiled text is made of

Two statements get into compiled text on the way: an `include` tag becomes an include
statement, and a literal that stripping keeps is put into a raw region.

The name in an include statement is written as a JSON literal.  Every escape in it is
undone by the reader of such literals (`undoes_jsonEscape?`) and by the rendering
language, whose escapes are more (`undoes_escape?`), so both read the same text back
(`read?_json`, `quoted?_json`).  So the statement includes that name, whatever it is
(`special?_include`).

A raw region ends at the first `endraw` statement in it.  That may stand in the text it
was made for.  If that text is itself a region of the rendering language, the statement
is at its end, since it holds no other closing delimiter (`endsWhole_written`).
-/
import Mathlib.Algebra.GroupWithZero.Nat
import TagTemplate.Proofs.Rendering.Language
import TagTemplate.Proofs.Rendering.Reading

namespace TagTemplate

set_option autoImplicit false

open Text

/-! ## JSON literals -/

theorem hexValue?_digitChar : ∀ d < 16, hexValue? (Nat.digitChar d) = some d := by decide

/-- The digits of a number are read as that number. -/
theorem hexNumber?_hexDigits (count : Nat) : ∀ (value n k : Nat) (more : Text),
    hexNumber? value (count + k) (hexDigits count n ++ more)
      = hexNumber? (value * 16 ^ count + n % 16 ^ count) k more := by
  induction count with
  | zero =>
    intro value n k more
    rw [Nat.pow_zero, Nat.mod_one, Nat.mul_one, Nat.zero_add]
    rfl
  | succ count ih =>
    intro value n k more
    have last : hexDigits (count + 1) n ++ more = hexDigits count (n / 16) ++ Nat.digitChar (n % 16) :: more := by
      rw [hexDigits, List.append_assoc]
      rfl
    have sum : (value * 16 ^ count + n / 16 % 16 ^ count) * 16 + n % 16
        = value * 16 ^ (count + 1) + n % 16 ^ (count + 1) := by
      rw [Nat.pow_succ, Nat.mul_comm (16 ^ count) 16, Nat.mod_mul, Nat.add_mul, Nat.mul_assoc, Nat.mul_comm (16 ^ count) 16]
      omega
    rw [Nat.add_right_comm count 1 k, Nat.add_assoc, last, ih, hexNumber?,
      hexValue?_digitChar _ (Nat.mod_lt _ (by decide)), ← sum]
    rfl

namespace Text.Quoted

def shortEscapes : List (Char × Char) :=
  [('"', '"'), ('\\', '\\'), ('b', '\x08'), ('t', '\t'), ('n', '\n'), ('f', '\x0c'), ('r', '\r')]

/-- How a character is written in a JSON literal. -/
inductive WrittenAs : Char → Text → Prop where
  | short {k c : Char} (escape : (k, c) ∈ shortEscapes) : WrittenAs c ['\\', k]
  | number {c : Char} (control : c.toNat < 0x20) : WrittenAs c ('\\' :: 'u' :: hexDigits 4 c.toNat)
  | itself {c : Char} (not_quote : c ≠ '"') (not_backslash : c ≠ '\\') (shows : 0x20 ≤ c.toNat) : WrittenAs c [c]

theorem writtenAs_jsonChar (c : Char) : WrittenAs c (jsonChar c) := by
  unfold jsonChar
  split
  · rename_i same
    exact .short (by simp [same, shortEscapes])
  rename_i not_quote
  split
  · rename_i same
    exact .short (by simp [same, shortEscapes])
  rename_i not_backslash
  split
  · rename_i same
    exact .short (by simp [same, shortEscapes])
  split
  · rename_i same
    exact .short (by simp [same, shortEscapes])
  split
  · rename_i same
    exact .short (by simp [same, shortEscapes])
  split
  · rename_i same
    exact .short (by simp [same, shortEscapes])
  split
  · rename_i same
    exact .short (by simp [same, shortEscapes])
  split
  · rename_i control
    exact .number control
  · rename_i shows
    exact .itself not_quote not_backslash (Nat.le_of_not_lt shows)

/-- A reader of escapes undoes those of JSON literals. -/
structure Undoes (escape? : Text → Option (Text × Text)) : Prop where
  short : ∀ p ∈ shortEscapes, ∀ more, escape? (p.1 :: more) = some ([p.2], more)
  number : ∀ n < 0x20, ∀ more, escape? ('u' :: (hexDigits 4 n ++ more)) = some ([Char.ofNat n], more)

variable {escape? : Text → Option (Text × Text)} {plain : Char → Bool}

/-- How a character is written in a JSON literal is read as that character. -/
theorem bodyUpTo?_jsonChar (undoes : Undoes escape?) (shows : ∀ c : Char, 0x20 ≤ c.toNat → plain c = true) (c : Char)
    (count : Nat) (t : Text) :
    bodyUpTo? escape? '"' plain (count + 1) (jsonChar c ++ t)
      = (bodyUpTo? escape? '"' plain count t).map fun p => (c :: p.1, p.2) := by
  have escaped {u : Text} (escape : escape? u = some ([c], t)) :
      bodyUpTo? escape? '"' plain (count + 1) ('\\' :: u)
        = (bodyUpTo? escape? '"' plain count t).map fun p => (c :: p.1, p.2) := by
    rw [bodyUpTo?, if_neg (by decide), if_pos rfl, escape]
    simp only [Option.bind_eq_bind, Option.bind_some]
    cases bodyUpTo? escape? '"' plain count t <;> rfl
  have written := writtenAs_jsonChar c
  generalize jsonChar c = u at written
  cases written with
  | short escape => exact escaped (undoes.short _ escape t)
  | number control =>
    have read := undoes.number _ control t
    rw [Char.ofNat_toNat] at read
    exact escaped read
  | itself not_quote not_backslash visible =>
    exact (if_neg not_quote).trans ((if_neg not_backslash).trans (if_pos (shows c visible)))

theorem bodyUpTo?_json (undoes : Undoes escape?) (shows : ∀ c : Char, 0x20 ≤ c.toNat → plain c = true) (s rest : Text) :
    ∀ count, s.length < count →
      bodyUpTo? escape? '"' plain count (s.flatMap jsonChar ++ '"' :: rest) = some (s, rest) := by
  induction s with
  | nil =>
    intro count enough
    cases count with
    | zero => cases enough
    | succ count => rfl
  | cons c s ih =>
    intro count enough
    cases count with
    | zero => cases enough
    | succ count =>
      rw [List.flatMap_cons, List.append_assoc, bodyUpTo?_jsonChar undoes shows, ih count (Nat.lt_of_succ_lt_succ enough)]
      rfl

theorem length_jsonChar_pos (c : Char) : 0 < (jsonChar c).length := by
  have written := writtenAs_jsonChar c
  generalize jsonChar c = u at written
  cases written <;> exact Nat.succ_pos _

theorem body?_json (undoes : Undoes escape?) (shows : ∀ c : Char, 0x20 ≤ c.toNat → plain c = true) (s rest : Text) :
    body? escape? '"' plain (s.flatMap jsonChar ++ '"' :: rest) = some (s, rest) := by
  have long (u : Text) : u.length ≤ (u.flatMap jsonChar).length := by
    induction u with
    | nil => exact Nat.le_refl 0
    | cons c u ih =>
      have := length_jsonChar_pos c
      rw [List.flatMap_cons, List.length_append, List.length_cons]
      omega
  refine bodyUpTo?_json undoes shows s rest _ ?_
  have := long s
  rw [List.length_append]
  omega

theorem json_append (s rest : Text) : json s ++ rest = '"' :: (s.flatMap jsonChar ++ '"' :: rest) := by
  rw [json, List.cons_append, List.cons_append, List.append_assoc]
  rfl

/-- The number in a `\u` escape, as long as that is no half of a pair. -/
theorem unicodeEscape?_of_number {number? : Text → Option (Nat × Text)} {t more : Text} {n : Nat} (small : n < 0x20)
    (read : number? t = some (n, more)) : unicodeEscape? number? t = some (Char.ofNat n, more) := by
  have low : ¬ (0xD800 ≤ n ∧ n < 0xDC00) := by omega
  have low' : n < 0xDC00 ∨ 0xE000 ≤ n := by omega
  rw [unicodeEscape?, read]
  simp only [Option.bind_eq_bind, Option.bind_some, if_neg low, if_pos low', Option.pure_def]

theorem hexNumber?_four {n : Nat} (small : n < 0x20) (more : Text) :
    hexNumber? 0 4 (hexDigits 4 n ++ more) = some (n, more) := by
  have read := hexNumber?_hexDigits 4 0 n 0 more
  rw [Nat.mod_eq_of_lt (Nat.lt_trans small (by decide))] at read
  exact read.trans (by simp [hexNumber?])

theorem undoes_jsonEscape? : Undoes jsonEscape? where
  short := by
    intro p escape more
    simp only [shortEscapes, List.mem_cons, List.not_mem_nil, or_false] at escape
    rcases escape with rfl | rfl | rfl | rfl | rfl | rfl | rfl <;> rfl
  number n small more := by
    rw [jsonEscape?, unicodeEscape?_of_number small (hexNumber?_four small more), Option.map_some]

/-- **A JSON literal is read back as its text.** -/
theorem read?_json (shows : ∀ c : Char, 0x20 ≤ c.toNat → plain c = true) (s rest : Text) :
    read? plain (json s ++ rest) = some (s, rest) := by
  rw [json_append]
  exact body?_json undoes_jsonEscape? shows s rest

end Text.Quoted

namespace Expression

theorem undoes_escape? : Quoted.Undoes escape? where
  short := by
    intro p escape more
    simp only [Quoted.shortEscapes, List.mem_cons, List.not_mem_nil, or_false] at escape
    rcases escape with rfl | rfl | rfl | rfl | rfl | rfl | rfl <;> rfl
  number n small more := by
    have read : number? 4 (hexDigits 4 n ++ more) = some (n, more) := by
      unfold number?
      split
      · rename_i t eq
        have sign : Nat.digitChar (n / 16 / 16 / 16 % 16) = '+' := (List.cons.inj eq).1
        exact absurd sign ((by decide : ∀ d < 16, Nat.digitChar d ≠ '+') _ (Nat.mod_lt _ (by decide)))
      · exact Quoted.hexNumber?_four small more
    rw [escape?, if_pos rfl, Quoted.unicodeEscape?_of_number small read, Option.map_some]

/-- **The rendering language reads a JSON literal as its text.** -/
theorem quoted?_json (s rest : Text) : quoted? (Quoted.json s ++ rest) = some (s, rest) := by
  rw [Quoted.json_append, quoted?]
  exact (if_pos rfl).trans (Quoted.body?_json undoes_escape? (fun _ _ => rfl) s rest)

end Expression

namespace Piece

open Expression (quoted? quotedTexts? quoted?_json)

/-! ## Include statements -/

/-- What an include statement reads as. -/
theorem special?_include (src rest : Text) :
    special? ("\x7b% include ".toList ++ Quoted.json src ++ " %\x7d".toList ++ rest)
      = some (.includes (.constant (.text src)) false, false, rest) := by
  have texts (count : Nat) : quotedTexts? (count + 1) (Quoted.json src ++ (" %\x7d".toList ++ rest))
      = some (src, " %\x7d".toList ++ rest) := by
    rw [quotedTexts?, quoted?_json]
    rfl
  have atom : Expression.atom? (Quoted.json src ++ (" %\x7d".toList ++ rest))
      = some (.constant (.text src), " %\x7d".toList ++ rest) := by
    have digit : startsWith Char.isDigit (Quoted.json src ++ (" %\x7d".toList ++ rest)) = false := rfl
    have minus : startsWith (· == '-') (Quoted.json src ++ (" %\x7d".toList ++ rest)) = false := rfl
    have quote : startsWith Expression.isQuote (Quoted.json src ++ (" %\x7d".toList ++ rest)) = true := rfl
    rw [Expression.atom?, digit, minus, quote]
    show (quotedTexts? _ _).map _ = _
    rw [show (Quoted.json src ++ (" %\x7d".toList ++ rest)).length = _ + 1 from rfl, texts]
    rfl
  have read : Expression.read? (' ' :: (Quoted.json src ++ (" %\x7d".toList ++ rest)))
      = some (.constant (.text src), '%' :: '\x7d' :: rest) := by
    show (Expression.atom? (Quoted.json src ++ (" %\x7d".toList ++ rest))).bind _ = _
    rw [atom]
    rfl
  rw [List.append_assoc, List.append_assoc]
  show include? (' ' :: ("include".toList ++ ' ' :: (Quoted.json src ++ (" %\x7d".toList ++ rest)))) = _
  show (Expression.read? (' ' :: (Quoted.json src ++ (" %\x7d".toList ++ rest)))).bind _ = _
  rw [read]
  rfl

/-! ## Raw regions -/

theorem special?_raw (t : Text) :
    special? (rawLead ++ t) = (untilEndraw? t).bind fun p => (endraw? p.2).map fun q =>
      (.text (if removesBefore p.2 then trimEnd p.1 else p.1), q.1, q.2) := by
  show raw? (" raw %\x7d".toList ++ t) = _
  show (untilEndraw? t).bind _ = _
  congr 1
  funext p
  show (endraw? p.2).bind _ = _
  cases endraw? p.2 <;> rfl

/-- What an `endraw` statement takes has no closing brace before its end. -/
theorem exists_of_endraw? {t rest : Text} {removes : Bool} (found : endraw? t = some (removes, rest)) :
    ∃ lead, t = '{' :: '%' :: (lead ++ '%' :: '}' :: rest) ∧ '}' ∉ lead := by
  unfold endraw? at found
  split at found
  · rename_i t
    obtain ⟨sign, signed, split⟩ := exists_afterOpener '%' t
    obtain ⟨lead, split', plain⟩ := exists_of_bareStatement? found
    rw [split'] at split
    refine ⟨sign ++ lead, by rw [List.append_assoc, ← split], fun mem => ?_⟩
    rcases List.mem_append.1 mem with mem | mem
    · rcases eq_of_mem_sign signed mem with sign | sign <;> cases sign
    · rcases plain '}' mem with gap | inside | sign | sign
      · cases gap
      · exact absurd inside (by decide)
      · cases sign
      · cases sign
  · cases found

/-- An `endraw` statement in a raw region, and where it leaves off. -/
def EndsWhole (y z : Text) : Prop :=
  ∀ a b, y = a ++ b → b ≠ [] → ∀ removes rest, endraw? (b ++ (rawEnd ++ z)) = some (removes, rest) → rest = rawEnd ++ z

theorem exists_untilEndraw? {y z : Text} (ends : EndsWhole y z) :
    ∃ body t, untilEndraw? (y ++ (rawEnd ++ z)) = some (body, t) ∧
      (t = rawEnd ++ z ∨ ∃ removes, endraw? t = some (removes, rawEnd ++ z)) := by
  induction y with
  | nil => exact ⟨[], rawEnd ++ z, rfl, .inl rfl⟩
  | cons c y ih =>
    cases found : endraw? (c :: y ++ (rawEnd ++ z)) with
    | some r =>
      refine ⟨[], c :: y ++ (rawEnd ++ z), ?_, .inr ⟨r.1, ?_⟩⟩
      · show (if (endraw? (c :: y ++ (rawEnd ++ z))).isSome then _ else _) = _
        rw [found]
        rfl
      · rw [found, ← ends [] (c :: y) rfl (List.cons_ne_nil c y) r.1 r.2 found]
    | none =>
      obtain ⟨body, t, until_, last⟩ := ih fun a b split => ends (c :: a) b (congrArg (c :: ·) split)
      refine ⟨c :: body, t, ?_, last⟩
      show (if (endraw? (c :: y ++ (rawEnd ++ z))).isSome then _ else _) = _
      rw [found]
      show (untilEndraw? (y ++ (rawEnd ++ z))).map _ = _
      rw [until_]
      rfl

theorem endsWhole_of_not_mem {y : Text} (absent : '{' ∉ y) (z : Text) : EndsWhole y z := by
  rintro a b rfl nonempty removes rest found
  obtain ⟨lead, split, -⟩ := exists_of_endraw? found
  cases b with
  | nil => exact absurd rfl nonempty
  | cons c b =>
    obtain rfl : c = '{' := (List.cons.inj split).1
    exact absurd (List.mem_append_right _ (List.mem_cons_self ..)) absent

/-- A region ends where the first closing delimiter ends. -/
theorem rest_eq_of_closer {body lead x rest : Text} {k : Char} (mark : Source.isCloserMark k = true)
    (unclosed : Source.Unclosed (body ++ [k])) (absent : '}' ∉ lead)
    (split : body ++ k :: '}' :: x = lead ++ '%' :: '}' :: rest) : rest = x := by
  have one : Source.close? (body ++ k :: '}' :: x) = some (body, k, x) :=
    Source.close?_eq_some_iff.2 ⟨rfl, mark, unclosed⟩
  have two : Source.close? (lead ++ '%' :: '}' :: rest) = some (lead, '%', rest) :=
    Source.close?_eq_some_iff.2 ⟨rfl, rfl, Source.unclosed_of_not_mem (by simpa using absent)⟩
  rw [split, two] at one
  cases one
  rfl

/-- An `endraw` statement that starts in a region of the rendering language ends with it. -/
theorem endsWhole_written {s : Source.Snippet} (mark : Source.isCloserMark s.closer = true)
    (unclosed : Source.Unclosed (s.body ++ [s.closer])) (z : Text) : EndsWhole s.written z := by
  intro a b split nonempty removes rest found
  obtain ⟨lead, eq, absent⟩ := exists_of_endraw? found
  -- Wherever the statement starts, the first closing delimiter behind is that of the region.
  have inside {body : Text} (closing : Source.Unclosed (body ++ [s.closer]))
      (cut : b = '{' :: body ++ [s.closer, '}']) : rest = rawEnd ++ z := by
    rw [cut] at eq
    have absent' : '}' ∉ '%' :: lead := by simpa using absent
    refine rest_eq_of_closer mark closing absent' ?_
    simpa using (List.cons.inj eq).2
  have not_closer : s.closer ≠ '{' := by
    intro same
    rw [same] at mark
    cases mark
  rcases a with _ | ⟨c, _ | ⟨d, a⟩⟩
  · obtain rfl : s.written = b := split
    refine rest_eq_of_closer mark unclosed absent ?_
    simpa [Source.Snippet.written] using (List.cons.inj (List.cons.inj eq).2).2
  · obtain rfl : s.opener :: s.body ++ [s.closer, '}'] = b := (List.cons.inj split).2
    have first : s.opener = '{' := (List.cons.inj eq).1
    exact inside unclosed (congrArg (· :: s.body ++ [s.closer, '}']) first)
  · obtain ⟨-, tail⟩ := List.cons.inj split
    obtain ⟨-, tail⟩ := List.cons.inj tail
    rcases List.append_eq_append_iff.1 tail with ⟨mid, -, closes⟩ | ⟨mid, body, rfl⟩
    · rcases mid with _ | ⟨_, _ | ⟨_, mid⟩⟩
      · obtain rfl : [s.closer, '}'] = b := closes
        exact absurd (List.cons.inj eq).1 not_closer
      · obtain rfl : ['}'] = b := (List.cons.inj closes).2
        cases (List.cons.inj eq).1
      · have none : [] = mid ++ b := (List.cons.inj (List.cons.inj closes).2).2
        exact absurd (List.append_eq_nil_iff.1 none.symm).2 nonempty
    · cases mid with
      | nil => exact absurd (List.cons.inj eq).1 not_closer
      | cons e mid =>
        obtain rfl : e = '{' := (List.cons.inj eq).1
        rw [body, List.append_assoc] at unclosed
        have closing : Source.Unclosed (mid ++ [s.closer]) := (Source.unclosed_cons_iff.1 unclosed.of_append).2
        exact inside closing rfl

end Piece

end TagTemplate
