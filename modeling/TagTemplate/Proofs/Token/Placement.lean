/-
# Proofs.Token.Placement -- where the tags of a source stand

A tag token stands at a place of the source if and only if the grammar has a tag there
(`tag_mem_tokenize_iff`).  Both directions are about the cut: it comes to every place that
no earlier tag reaches over (`mem_place_of_written`), whatever failed openers it passed on
the way, and it takes a tag only where it tries for one (`written_of_mem_place`).  Inside a
text it tried at every character in vain (`none_of_mem_place`).

Strip modifiers change texts, never a tag and never a span, so what holds of the cut holds
of the tokens.
-/
import TagTemplate.Proofs.Tag.Grammar

namespace TagTemplate

set_option autoImplicit false

open Text

/-! ## Strip modifiers -/

namespace Token

/-- What is left of a text, stripped in front if `lead` and at its end if `trail`. -/
def strippedText (lead trail : Bool) (t : Text) : Text :=
  let t := if lead then dropBlankLead t else t
  if trail then dropEndWhile isBlank t else t

end Token

namespace Fragment

def stripsFront : Fragment → Bool
  | .text _ => false
  | .tag t => t.stripBefore

def stripsBehind : Fragment → Bool
  | .text _ => false
  | .tag t => t.stripAfter

def settled (lead trail : Bool) : Fragment → Fragment
  | .text t => .text (Token.strippedText lead trail t)
  | .tag t => .tag t

end Fragment

namespace Token

def between (lead trail : Bool) (token : Token) : Token := { token with fragment := token.fragment.settled lead trail }

@[simp] theorem between_false : between false false = id := by
  funext ⟨fragment, _, _⟩
  cases fragment <;> rfl

theorem settle_cons (stripped : Bool) (token : Token) (ts : List Token) :
    settle stripped (token :: ts)
      = token.between stripped (ts.head?.any (·.fragment.stripsFront)) :: settle token.fragment.stripsBehind ts := by
  obtain ⟨fragment, a, b⟩ := token
  cases fragment with
  | tag => rfl
  | text t =>
    have next : stripsBefore ts = ts.head?.any (·.fragment.stripsFront) := by
      rcases ts with - | ⟨⟨_ | _, _, _⟩, ts⟩ <;> rfl
    rw [settle, next]
    rfl

@[simp] theorem length_settle (stripped : Bool) (ts : List Token) : (settle stripped ts).length = ts.length := by
  induction ts generalizing stripped with
  | nil => rfl
  | cons t ts ih => rw [settle_cons, List.length_cons, List.length_cons, ih]

/-- **A token is stripped by its two neighbours**, and by nothing else. -/
theorem getElem?_settle (ts : List Token) (stripped : Bool) (i : Nat) :
    (settle stripped ts)[i]? = ts[i]?.map
      (between (if i = 0 then stripped else ts[i - 1]?.any (·.fragment.stripsBehind))
        (ts[i + 1]?.any (·.fragment.stripsFront))) := by
  induction ts generalizing stripped i with
  | nil => rfl
  | cons t ts ih =>
    rw [settle_cons]
    cases i with
    | zero => simp [List.head?_eq_getElem?]
    | succ i =>
      cases i with
      | zero => simp [ih]
      | succ i => simp [ih]

variable {tag : Tag} {x : Text} {c : Char} {start stop offset : Nat}

theorem tag_mem_settle_iff {ts : List Token} {stripped : Bool} :
    ⟨.tag tag, start, stop⟩ ∈ settle stripped ts ↔ ⟨.tag tag, start, stop⟩ ∈ ts := by
  induction ts generalizing stripped with
  | nil => rfl
  | cons t ts ih =>
    obtain ⟨fragment, a, b⟩ := t
    cases fragment <;> simp [settle, ih]

theorem text_of_mem_settle {ts : List Token} {stripped : Bool} (mem : ⟨.text x, start, stop⟩ ∈ settle stripped ts) :
    ∃ y, ⟨.text y, start, stop⟩ ∈ ts := by
  induction ts generalizing stripped with
  | nil => exact nomatch mem
  | cons t ts ih =>
    obtain ⟨fragment, a, b⟩ := t
    cases fragment with
    | tag tag' =>
      rcases List.mem_cons.1 mem with eq | mem
      · cases eq
      · exact (ih mem).imp fun _ => List.mem_cons_of_mem _
    | text y =>
      rcases List.mem_cons.1 mem with eq | mem
      · cases eq
        exact ⟨y, List.mem_cons_self ..⟩
      · exact (ih mem).imp fun _ => List.mem_cons_of_mem _

/-! ## Places of a text -/

theorem eq_nil_of_size {t : Text} (none : size t = 0) : t = [] := by
  cases t with
  | nil => rfl
  | cons c t =>
    have := Char.utf8Size_pos c
    rw [size_cons] at none
    omega

/-- Of two cuts of one text, the later one cuts what is behind the earlier one. -/
theorem exists_between {a b c d : Text} (whole : a ++ b = c ++ d) (le : size a ≤ size c) :
    ∃ m, c = a ++ m ∧ b = m ++ d := by
  rcases List.append_eq_append_iff.1 whole with ⟨m, rfl, rfl⟩ | ⟨m, rfl, rfl⟩
  · exact ⟨m, rfl, rfl⟩
  · have : size m = 0 := by
      rw [size_append] at le
      omega
    obtain rfl := eq_nil_of_size this
    exact ⟨[], by simp⟩

/-- Two cuts of one text at one place leave the same behind. -/
theorem eq_of_size_eq {a b c d : Text} (whole : a ++ b = c ++ d) (eq : size a = size c) : b = d := by
  obtain ⟨m, rfl, rfl⟩ := exists_between whole (Nat.le_of_eq eq)
  rw [size_append] at eq
  rw [eq_nil_of_size (show size m = 0 by omega), List.nil_append]

/-! ## Placing the lexemes -/

theorem place_cons {fragment : Fragment} {slice : Text} {ls : List Lexeme} :
    place offset (⟨fragment, slice⟩ :: ls)
      = ⟨fragment, offset, offset + size slice⟩ :: place (offset + size slice) ls := rfl

theorem le_start_of_mem_place {ls : List Lexeme} {token : Token} (mem : token ∈ place offset ls) :
    offset ≤ token.start := by
  induction ls generalizing offset with
  | nil => exact nomatch mem
  | cons l ls ih =>
    rcases List.mem_cons.1 mem with rfl | mem
    · exact Nat.le_refl _
    · exact Nat.le_trans (Nat.le_add_right ..) (ih mem)

/-- A character of text in front moves the tags behind it, and nothing else about them. -/
theorem tag_mem_place_consChar {ls : List Lexeme} :
    ⟨.tag tag, start, stop⟩ ∈ place offset (consChar c ls) ↔
      ⟨.tag tag, start, stop⟩ ∈ place (offset + c.utf8Size) ls := by
  unfold consChar
  split
  · simp [place, Nat.add_assoc]
  · simp [place]

/-- A text behind a character in front is one of those that were there, continued to the character or not. -/
theorem text_of_mem_place_consChar {ls : List Lexeme} (mem : ⟨.text x, start, stop⟩ ∈ place offset (consChar c ls))
    (behind : offset + c.utf8Size < stop) :
    ∃ y start', ⟨.text y, start', stop⟩ ∈ place (offset + c.utf8Size) ls ∧
      (start = start' ∨ start = offset ∧ start' = offset + c.utf8Size) := by
  unfold consChar at mem
  split at mem
  · rename_i y slice ls
    rcases List.mem_cons.1 mem with eq | mem
    · cases eq
      refine ⟨y, _, ?_, .inr ⟨rfl, rfl⟩⟩
      rw [size_cons, ← Nat.add_assoc]
      exact List.mem_cons_self ..
    · rw [size_cons, ← Nat.add_assoc] at mem
      exact ⟨x, start, List.mem_cons_of_mem _ mem, .inl rfl⟩
  · rcases List.mem_cons.1 mem with eq | mem
    · cases eq
      exact absurd behind (Nat.lt_irrefl _)
    · exact ⟨x, start, mem, .inl rfl⟩

/-! ## The cut -/

/-- A tag is cut off with exactly its written form. -/
theorem lexemes_of_written {slice rest : Text} (written : Tag.Written (slice ++ rest) tag rest) :
    lexemes (slice ++ rest) = ⟨.tag tag, slice⟩ :: lexemes rest := by
  rw [lexemes_of_scan? (Tag.scan?_eq_some_iff.2 written), List.length_append, Nat.add_sub_cancel, List.take_left]

/-- A source is cut from its front: a tag, where the grammar has one, and otherwise a character. -/
@[elab_as_elim]
theorem cut_induction {motive : Text → Prop} (nil : motive [])
    (tag : ∀ {slice rest tag}, Tag.Written (slice ++ rest) tag rest → motive rest → motive (slice ++ rest))
    (char : ∀ {c t}, Tag.scan? (c :: t) = none → motive t → motive (c :: t)) (t : Text) : motive t := by
  fun_induction lexemes t with
  | case1 t tag' rest found shorter ih =>
    have written := Tag.scan?_eq_some_iff.1 found
    obtain ⟨slice, rfl⟩ := written.suffix
    exact tag written ih
  | case2 => exact nil
  | case3 c t none ih => exact char none ih

/-- Every tag that is cut off stands in the source where the grammar has it. -/
theorem written_of_mem_place (t : Text) (mem : ⟨.tag tag, start, stop⟩ ∈ place offset (lexemes t)) :
    ∃ v u rest, t = v ++ u ∧ start = offset + size v ∧ Tag.Written u tag rest ∧ stop + size rest = offset + size t := by
  induction t using cut_induction generalizing offset with
  | nil =>
    rw [lexemes_nil] at mem
    exact nomatch mem
  | @tag slice rest _ written ih =>
    rw [lexemes_of_written written, place_cons] at mem
    rcases List.mem_cons.1 mem with eq | mem
    · cases eq
      exact ⟨[], _, rest, rfl, rfl, written, by rw [size_append, Nat.add_assoc]⟩
    · obtain ⟨v, u, r, rfl, rfl, written, ends⟩ := ih mem
      refine ⟨slice ++ v, u, r, (List.append_assoc ..).symm, ?_, written, ?_⟩
      · rw [size_append, Nat.add_assoc]
      · rw [ends, size_append slice, Nat.add_assoc]
  | @char c t none ih =>
    rw [lexemes_of_none none, tag_mem_place_consChar] at mem
    obtain ⟨v, u, r, rfl, rfl, written, ends⟩ := ih mem
    refine ⟨c :: v, u, r, rfl, ?_, written, ?_⟩
    · rw [size_cons, Nat.add_assoc]
    · rw [ends, size_cons, Nat.add_assoc]

def isTag (token : Token) : Bool :=
  match token.fragment with
  | .text _ => false
  | .tag _ => true

/-- No tag that starts before a place reaches over it. -/
def Clear (tokens : List Token) (p : Nat) : Prop :=
  ∀ token ∈ tokens, token.isTag = true → token.start < p → token.stop ≤ p

instance (tokens : List Token) (p : Nat) : Decidable (Clear tokens p) :=
  inferInstanceAs (Decidable (∀ token ∈ tokens, _))

theorem clear_iff {tokens : List Token} {p : Nat} :
    Clear tokens p ↔ ∀ tag start stop, ⟨.tag tag, start, stop⟩ ∈ tokens → start < p → stop ≤ p := by
  refine ⟨fun clear tag start stop mem => clear _ mem rfl, fun clear token mem is_tag => ?_⟩
  obtain ⟨fragment, start, stop⟩ := token
  cases fragment with
  | text => cases is_tag
  | tag tag => exact clear tag start stop mem

theorem mem_place_of_written {t after : Text} (written : Tag.Written t tag after)
    (ends : stop + size after = offset + size t) : ⟨.tag tag, offset, stop⟩ ∈ place offset (lexemes t) := by
  obtain ⟨slice, rfl⟩ := written.suffix
  rw [size_append, ← Nat.add_assoc, Nat.add_right_cancel_iff] at ends
  rw [lexemes_of_written written, place_cons, ends]
  exact List.mem_cons_self ..

/-- The cut comes to every place that no earlier tag reaches over, and takes the tag there. -/
theorem mem_place_of_clear (t : Text) {before rest after : Text} (whole : t = before ++ rest)
    (written : Tag.Written rest tag after) (clear : Clear (place offset (lexemes t)) (offset + size before))
    (ends : stop + size after = offset + size t) :
    ⟨.tag tag, offset + size before, stop⟩ ∈ place offset (lexemes t) := by
  induction t using cut_induction generalizing offset before with
  | nil =>
    obtain ⟨rfl, rfl⟩ := List.append_eq_nil_iff.1 whole.symm
    exact mem_place_of_written written ends
  | @tag slice r tag' written' ih =>
    cases before with
    | nil =>
      rw [whole] at ends ⊢
      exact mem_place_of_written written ends
    | cons c before =>
      rw [lexemes_of_written written', place_cons] at clear ⊢
      have := Char.utf8Size_pos c
      have reach := clear _ (List.mem_cons_self ..) rfl (by rw [size_cons]; dsimp only; omega)
      dsimp only at reach
      -- the tag in front ends before the place, so the place is behind it
      obtain ⟨m, eq, split⟩ := exists_between whole (by omega)
      rw [eq, size_append, ← Nat.add_assoc] at clear ⊢
      refine List.mem_cons_of_mem _ (ih split (fun token mem => clear token (.tail _ mem)) ?_)
      rw [ends, size_append, Nat.add_assoc]
  | @char c t none ih =>
    cases before with
    | nil =>
      rw [whole] at ends ⊢
      exact mem_place_of_written written ends
    | cons d before =>
      obtain ⟨rfl, rfl⟩ := List.cons.inj whole
      rw [lexemes_of_none none, size_cons, ← Nat.add_assoc, clear_iff] at clear
      rw [lexemes_of_none none, size_cons, ← Nat.add_assoc, tag_mem_place_consChar]
      refine ih rfl (clear_iff.2 fun tag start stop mem => ?_) ?_
      · exact clear tag start stop (tag_mem_place_consChar.2 mem)
      · rw [ends, size_cons, Nat.add_assoc]

/-- Nowhere in a text that is cut off does a tag start. -/
theorem none_of_mem_place (t : Text) {v w : Text} (whole : t = v ++ w)
    (mem : ⟨.text x, start, stop⟩ ∈ place offset (lexemes t)) (le : start ≤ offset + size v)
    (lt : offset + size v < stop) : Tag.scan? w = none := by
  induction t using cut_induction generalizing offset start v x with
  | nil =>
    rw [lexemes_nil] at mem
    exact nomatch mem
  | @tag slice r _ written ih =>
    rw [lexemes_of_written written, place_cons] at mem
    rcases List.mem_cons.1 mem with eq | mem
    · cases eq
    · have behind := le_start_of_mem_place mem
      dsimp only at behind
      obtain ⟨m, rfl, split⟩ := exists_between whole (by omega)
      rw [size_append, ← Nat.add_assoc] at le lt
      exact ih split mem le lt
  | @char c t none ih =>
    rw [lexemes_of_none none] at mem
    cases v with
    | nil =>
      rwa [whole] at none
    | cons d v =>
      obtain ⟨rfl, rfl⟩ := List.cons.inj whole
      rw [size_cons, ← Nat.add_assoc] at le lt
      obtain ⟨y, start', mem, rfl | ⟨-, rfl⟩⟩ := text_of_mem_place_consChar mem (by omega)
      · exact ih rfl mem le lt
      · exact ih rfl mem (Nat.le_add_right ..) lt

/-! ## The tokens -/

/-- **A tag token stands exactly where the grammar has a tag**, at each place of a source that no earlier tag reaches
over.  It ends where the written form ends, and no text goes over its place. -/
theorem tag_mem_tokenize_iff {before rest : Text} (clear : Clear (tokenize (before ++ rest)) (size before)) :
    (∀ tag stop, ⟨.tag tag, size before, stop⟩ ∈ tokenize (before ++ rest) ↔
        ∃ after, Tag.Written rest tag after ∧ stop + size after = size (before ++ rest)) ∧
      ∀ tag after, Tag.Written rest tag after →
        ∀ x start stop, ⟨.text x, start, stop⟩ ∈ tokenize (before ++ rest) →
          ¬ (start ≤ size before ∧ size before < stop) := by
  refine ⟨fun tag stop => ⟨fun mem => ?_, fun ⟨after, written, ends⟩ => ?_⟩, fun tag after written x start stop mem covers => ?_⟩
  · obtain ⟨v, u, after, whole, start, written, ends⟩ := written_of_mem_place _ (tag_mem_settle_iff.1 mem)
    rw [Nat.zero_add] at start ends
    obtain rfl := eq_of_size_eq whole start
    exact ⟨after, written, ends⟩
  · have clear' : Clear (place 0 (lexemes (before ++ rest))) (0 + size before) := by
      rw [Nat.zero_add, clear_iff]
      exact fun tag start stop mem => clear_iff.1 clear tag start stop (tag_mem_settle_iff.2 mem)
    have mem := mem_place_of_clear _ rfl written clear' (ends.trans (Nat.zero_add _).symm)
    rw [Nat.zero_add] at mem
    exact tag_mem_settle_iff.2 mem
  · obtain ⟨y, mem⟩ := text_of_mem_settle mem
    have := none_of_mem_place _ rfl mem (by omega) (by omega)
    rw [Tag.scan?_eq_some_iff.2 written] at this
    cases this

/-- A tag behind a tag with an opener in its attributes and behind an opener without a name.  Its own attributes hold a
terminator, and both its marks are set off by white space. -/
theorem tag_behind_openers :
    let before := "<tpl:a b=\"<tpl:c>\"/>x<tpl:".toList
    let rest := "<~tpl:A_1 k=\"a>b\" / ~ >y".toList
    Clear (tokenize (before ++ rest)) (size before) ∧
      ⟨.tag ⟨"A_1".toList, .opening "k=\"a>b\"".toList true, true, true⟩, 26, 49⟩ ∈ tokenize (before ++ rest) ∧
      ∀ x start stop, ⟨.text x, start, stop⟩ ∈ tokenize (before ++ rest) → ¬ (start ≤ 26 ∧ 26 < stop) := by
  intro before rest
  have clear : Clear (tokenize (before ++ rest)) (size before) := by decide +kernel
  have written : Tag.Written rest ⟨"A_1".toList, .opening "k=\"a>b\"".toList true, true, true⟩ ['y'] :=
    Tag.scan?_eq_some_iff.1 (by decide +kernel)
  obtain ⟨tags, texts⟩ := tag_mem_tokenize_iff clear
  exact ⟨clear, (tags _ _).2 ⟨_, written, by decide +kernel⟩, texts _ _ written⟩

end Token

end TagTemplate
