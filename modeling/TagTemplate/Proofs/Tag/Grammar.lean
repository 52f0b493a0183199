/-
# Proofs.Tag.Grammar -- a tag is read exactly where the grammar has one

`Tag.Written t tag rest` is the grammar of tags, said without a scanner: `t` is a written
form of `tag` with `rest` behind it.  A tag is an opener, the longest name, and

* for an opening or a value tag everything up to the first terminator outside double
  quotes, whose final marks are `~` and, in an opening tag, `/`, and whose other text is
  empty or set off from the name by white space;
* for a closing tag blanks, perhaps `~`, and `>`.

`scan?_eq_some_iff` says that the scanner reads the grammar: nothing else, and all of it.

Which double quotes are open is a matter of parity (`Outside`), and a final mark is the
last character that is not white space (`Sheds`).  The scanner trims before each mark
(`finalMarks_of_marked`); in the grammar that white space belongs to what is left of the
body, where neither the test for a set off body nor the trimmed attributes see it.
-/
import Mathlib.Algebra.Group.Nat.Even
import Mathlib.Data.List.DropRight
import TagTemplate.Proofs.Token

namespace TagTemplate

set_option autoImplicit false

open Text

/-! ## White space at the end of a text -/

namespace Text

theorem exists_trimEnd (t : Text) : ∃ w, t = trimEnd t ++ w ∧ ∀ c ∈ w, isSpace c = true :=
  ⟨t.rtakeWhile isSpace, List.rdropWhile_append_rtakeWhile.symm, fun _ => List.mem_rtakeWhile_imp⟩

theorem trimEnd_append_space {t w : Text} (spaces : ∀ c ∈ w, isSpace c = true) : trimEnd (t ++ w) = trimEnd t := by
  induction w using List.reverseRecOn with
  | nil => rw [List.append_nil]
  | append_singleton w c ih =>
    rw [← List.append_assoc]
    refine (List.rdropWhile_concat_pos _ _ _ (spaces c (by simp))).trans ?_
    exact ih fun d mem => spaces d (List.mem_append_left _ mem)

theorem trimEnd_concat {t : Text} {c : Char} (solid : isSpace c = false) : trimEnd (t ++ [c]) = t ++ [c] :=
  List.rdropWhile_concat_neg _ _ _ (by simp [solid])

theorem trimEnd_trimEnd (t : Text) : trimEnd (trimEnd t) = trimEnd t := List.rdropWhile_idempotent _ _

theorem trim_trimEnd (t : Text) : trim (trimEnd t) = trim t := congrArg (List.dropWhile isSpace) (trimEnd_trimEnd t)

theorem dropLast?_eq_some_iff {c : Char} {t b : Text} : dropLast? c t = some b ↔ t = b ++ [c] := by
  unfold dropLast?
  constructor
  · intro found
    obtain ⟨last, eq⟩ := Option.ite_none_right_eq_some.1 found
    cases eq
    exact (List.dropLast_append_getLast? c last).symm
  · rintro rfl
    simp

end Text

namespace Tag

/-! ## Names -/

/-- `name` is the name in front of `rest`: name characters, at least one, and all there are. -/
structure Called (name rest : Text) : Prop where
  nonempty : name ≠ []
  is_name : IsName name
  longest : ∀ c, rest.head? = some c → isNameChar c = false

theorem name?_eq_some_iff {t name rest : Text} : name? t = some (name, rest) ↔ t = name ++ rest ∧ Called name rest := by
  unfold name?
  constructor
  · intro found
    dsimp only at found
    split at found
    · cases found
    · rename_i nonempty
      cases found
      refine ⟨List.takeWhile_append_dropWhile.symm, by simpa using nonempty, fun _ => List.mem_takeWhile_imp, ?_⟩
      intro c head
      have := List.head?_dropWhile_not isNameChar t
      rw [head] at this
      exact this
  · rintro ⟨rfl, nonempty, is_name, longest⟩
    have none : rest.takeWhile isNameChar = [] ∧ rest.dropWhile isNameChar = rest := by
      cases rest with
      | nil => exact ⟨rfl, rfl⟩
      | cons c rest => simp [longest c rfl]
    simp [List.takeWhile_append_of_pos is_name, List.dropWhile_append_of_pos is_name, none, nonempty]

/-! ## The first terminator outside double quotes -/

/-- Behind `u` no double quote is open, where one was open before it if `quoted`. -/
def Outside (quoted : Bool) (u : Text) : Prop := Even (u.count '"') ↔ quoted = false

theorem outside_quote {quoted : Bool} {u : Text} : Outside quoted ('"' :: u) ↔ Outside (!quoted) u := by
  cases quoted <;> simp [Outside, Nat.even_add_one]

theorem outside_cons {quoted : Bool} {c : Char} {u : Text} (other : c ≠ '"') :
    Outside quoted (c :: u) ↔ Outside quoted u := by
  rw [Outside, Outside, List.count_cons_of_ne other]

theorem outside_nil {quoted : Bool} : Outside quoted [] ↔ quoted = false := by simp [Outside]

/-- `body` ends at the first `needle` outside double quotes, and `rest` is behind that. -/
structure Terminated (needle : Text) (quoted : Bool) (t body rest : Text) : Prop where
  split : t = body ++ needle ++ rest
  outside : Outside quoted body
  first : ∀ u v, body = u ++ v → v ≠ [] → Outside quoted u → ¬ needle <+: v ++ needle ++ rest

section Terminated

variable {needle t body rest : Text} {quoted : Bool} {c n : Char}

/-- Past a double quote the search goes on, with the quote opened or closed. -/
theorem terminated_quote (other : n ≠ '"') :
    Terminated (n :: needle) quoted ('"' :: t) body rest ↔
      ∃ b, body = '"' :: b ∧ Terminated (n :: needle) (!quoted) t b rest := by
  constructor
  · rintro ⟨split, outside, first⟩
    cases body with
    | nil => exact absurd (List.cons.inj split).1.symm other
    | cons d b =>
      obtain ⟨rfl, rfl⟩ := List.cons.inj split
      refine ⟨b, rfl, rfl, outside_quote.1 outside, fun u v eq nonempty before => ?_⟩
      exact first ('"' :: u) v (congrArg _ eq) nonempty (outside_quote.2 before)
  · rintro ⟨b, rfl, split, outside, first⟩
    refine ⟨congrArg _ split, outside_quote.2 outside, fun u v eq nonempty before lead => ?_⟩
    rcases List.cons_eq_append_iff.1 eq with ⟨rfl, rfl⟩ | ⟨u, rfl, rfl⟩
    · exact other (List.cons_prefix_cons.1 lead).1
    · exact first u v rfl nonempty (outside_quote.1 before) lead

/-- Past any other character the search goes on, unless the terminator starts there. -/
theorem terminated_cons (other : c ≠ '"') (later : quoted = false → ¬ n :: needle <+: c :: t) :
    Terminated (n :: needle) quoted (c :: t) body rest ↔
      ∃ b, body = c :: b ∧ Terminated (n :: needle) quoted t b rest := by
  constructor
  · rintro ⟨split, outside, first⟩
    cases body with
    | nil => exact absurd ⟨rest, split.symm⟩ (later (outside_nil.1 outside))
    | cons d b =>
      obtain ⟨rfl, rfl⟩ := List.cons.inj split
      refine ⟨b, rfl, rfl, (outside_cons other).1 outside, fun u v eq nonempty before => ?_⟩
      exact first (c :: u) v (congrArg _ eq) nonempty ((outside_cons other).2 before)
  · rintro ⟨b, rfl, rfl, outside, first⟩
    refine ⟨rfl, (outside_cons other).2 outside, fun u v eq nonempty before lead => ?_⟩
    rcases List.cons_eq_append_iff.1 eq with ⟨rfl, rfl⟩ | ⟨u, rfl, rfl⟩
    · exact later (outside_nil.1 before) lead
    · exact first u v rfl nonempty ((outside_cons other).1 before) lead

/-- Where the terminator starts, nothing is before it. -/
theorem terminated_here :
    Terminated needle false (needle ++ t) body rest ↔ body = [] ∧ rest = t := by
  constructor
  · rintro ⟨split, outside, first⟩
    cases body with
    | nil => exact ⟨rfl, (List.append_cancel_left split).symm⟩
    | cons c body =>
      exact absurd ⟨t, split⟩ (first [] (c :: body) rfl (by simp) (outside_nil.2 rfl))
  · rintro ⟨rfl, rfl⟩
    refine ⟨rfl, outside_nil.2 rfl, fun u v eq nonempty => ?_⟩
    exact absurd (List.append_eq_nil_iff.1 eq.symm).2 nonempty

end Terminated

theorem cutUnquoted?_eq_some_iff {n : Char} {needle : Text} (other : n ≠ '"') {t body rest : Text} {quoted : Bool} :
    cutUnquoted? (n :: needle) quoted t = some (body, rest) ↔ Terminated (n :: needle) quoted t body rest := by
  induction t generalizing quoted body with
  | nil =>
    refine ⟨fun found => (nomatch found), fun terminated => ?_⟩
    have := terminated.split
    simp at this
  | cons c t ih =>
    have goes_on (q : Bool) :
        ((cutUnquoted? (n :: needle) q t).map fun p => (c :: p.1, p.2)) = some (body, rest) ↔
          ∃ b, body = c :: b ∧ Terminated (n :: needle) q t b rest := by
      simp only [Option.map_eq_some_iff, Prod.exists, Prod.mk.injEq, ← ih]
      constructor
      · rintro ⟨b, r, found, rfl, rfl⟩
        exact ⟨b, rfl, found⟩
      · rintro ⟨b, rfl, found⟩
        exact ⟨b, rest, found, rfl, rfl⟩
    rw [cutUnquoted?]
    split
    · rename_i quote
      rw [goes_on, quote, terminated_quote other]
    · rename_i plain
      split
      · rename_i r here
        obtain ⟨unquoted, here⟩ := Option.ite_none_left_eq_some.1 here
        rw [dropLead?_eq_some_iff.1 here, Bool.eq_false_iff.2 unquoted, terminated_here, Option.some.injEq, Prod.mk.injEq,
          eq_comm, eq_comm (a := r)]
      · rename_i later
        refine (goes_on quoted).trans (terminated_cons plain fun unquoted lead => ?_).symm
        obtain ⟨r, eq⟩ := lead
        rw [unquoted, dropLead?_eq_some_iff.2 eq.symm] at later
        cases later

/-! ## The final marks of a body -/

/-- The last character of `body` that is not white space is `c`, and `kept` is before it. -/
def Sheds (c : Char) (body kept : Text) : Prop := ∃ w, body = kept ++ c :: w ∧ ∀ d ∈ w, isSpace d = true

/-- The last character of `body` that is not white space is not `c`. -/
def Bare (c : Char) (body : Text) : Prop := ∀ kept, ¬ Sheds c body kept

/-- What is left of the body of an opening tag, and which of `~` and `/` it ended in. -/
inductive Marked : Text → Text → Bool → Bool → Prop
  | plain {body : Text} : Bare '~' body → Bare '/' body → Marked body body false false
  | tilde {body kept : Text} : Sheds '~' body kept → Bare '/' kept → Marked body kept true false
  | slash {body kept : Text} : Sheds '/' body kept → Bare '~' kept → Marked body kept false true
  | tildeSlash {body b kept : Text} : Sheds '/' body b → Sheds '~' b kept → Marked body kept true true
  | slashTilde {body b kept : Text} : Sheds '~' body b → Sheds '/' b kept → Marked body kept true true

/-- What is left of the body of a value tag, and whether it ended in `~`. -/
inductive Tilded : Text → Text → Bool → Prop
  | plain {body : Text} : Bare '~' body → Tilded body body false
  | tilde {body kept : Text} : Sheds '~' body kept → Tilded body kept true

theorem dropLast?_trimEnd_eq_some_iff {c : Char} (solid : isSpace c = false) {body kept : Text} :
    dropLast? c (trimEnd body) = some kept ↔ Sheds c body kept := by
  rw [dropLast?_eq_some_iff]
  constructor
  · intro eq
    obtain ⟨w, split, spaces⟩ := exists_trimEnd body
    exact ⟨w, by rw [split, eq, List.append_assoc]; rfl, spaces⟩
  · rintro ⟨w, rfl, spaces⟩
    rw [List.append_cons, trimEnd_append_space spaces, trimEnd_concat solid]

theorem dropLast?_trimEnd_eq_none_iff {c : Char} (solid : isSpace c = false) {body : Text} :
    dropLast? c (trimEnd body) = none ↔ Bare c body := by
  simp only [Option.eq_none_iff_forall_ne_some, ne_eq, dropLast?_trimEnd_eq_some_iff solid, Bare]

theorem dropMark?_of_sheds {c : Char} (solid : isSpace c = false) {body kept : Text} (sheds : Sheds c body kept) :
    dropMark? c (trimEnd body) = some (trimEnd kept) := by
  rw [dropMark?, (dropLast?_trimEnd_eq_some_iff solid).2 sheds, Option.map_some]

theorem dropMark?_of_bare {c : Char} (solid : isSpace c = false) {body : Text} (bare : Bare c body) :
    dropMark? c (trimEnd body) = none := by
  rw [dropMark?, (dropLast?_trimEnd_eq_none_iff solid).2 bare, Option.map_none]

theorem isSpace_tilde : isSpace '~' = false := by decide

theorem isSpace_slash : isSpace '/' = false := by decide

/-- A body ends in one mark at most. -/
theorem bare_of_sheds {c d : Char} (solid : isSpace c = false) (solid' : isSpace d = false) (ne : c ≠ d)
    {body kept : Text} (sheds : Sheds c body kept) : Bare d body := by
  intro other sheds'
  have eq := dropLast?_eq_some_iff.1 ((dropLast?_trimEnd_eq_some_iff solid).2 sheds)
  have eq' := dropLast?_eq_some_iff.1 ((dropLast?_trimEnd_eq_some_iff solid').2 sheds')
  rw [eq] at eq'
  exact ne (List.cons.inj (List.append_inj_right' eq' rfl)).1

theorem sheds_or_bare (c : Char) (body : Text) : (∃ kept, Sheds c body kept) ∨ Bare c body := by
  by_cases sheds : ∃ kept, Sheds c body kept
  · exact .inl sheds
  · exact .inr fun kept has => sheds ⟨kept, has⟩

theorem exists_marked (body : Text) : ∃ kept after self, Marked body kept after self := by
  rcases sheds_or_bare '~' body with ⟨b, tilde⟩ | bare
  · rcases sheds_or_bare '/' b with ⟨kept, slash⟩ | bare
    · exact ⟨kept, true, true, .slashTilde tilde slash⟩
    · exact ⟨b, true, false, .tilde tilde bare⟩
  · rcases sheds_or_bare '/' body with ⟨b, slash⟩ | none
    · rcases sheds_or_bare '~' b with ⟨kept, tilde⟩ | bare
      · exact ⟨kept, true, true, .tildeSlash slash tilde⟩
      · exact ⟨b, false, true, .slash slash bare⟩
    · exact ⟨body, false, false, .plain bare none⟩

/-- The scanner's marks are those of the grammar, but for white space before them. -/
theorem finalMarks_of_marked {body kept : Text} {after self : Bool} (marked : Marked body kept after self) :
    finalMarks (trimEnd body) = (trimEnd kept, after, self) := by
  unfold finalMarks
  cases marked with
  | plain tilde slash => rw [dropMark?_of_bare isSpace_tilde tilde, dropMark?_of_bare isSpace_slash slash]
  | tilde tilde slash =>
    rw [dropMark?_of_sheds isSpace_tilde tilde]
    dsimp only
    rw [dropMark?_of_bare isSpace_slash slash]
  | slash slash tilde =>
    rw [dropMark?_of_bare isSpace_tilde (bare_of_sheds isSpace_slash isSpace_tilde (by decide) slash),
      dropMark?_of_sheds isSpace_slash slash]
    dsimp only
    rw [dropMark?_of_bare isSpace_tilde tilde]
  | tildeSlash slash tilde =>
    rw [dropMark?_of_bare isSpace_tilde (bare_of_sheds isSpace_slash isSpace_tilde (by decide) slash),
      dropMark?_of_sheds isSpace_slash slash]
    dsimp only
    rw [dropMark?_of_sheds isSpace_tilde tilde]
  | slashTilde tilde slash =>
    rw [dropMark?_of_sheds isSpace_tilde tilde]
    dsimp only
    rw [dropMark?_of_sheds isSpace_slash slash]

/-! ## Bodies set off from the name -/

/-- A text is empty or starts with white space. -/
def SetOff (kept : Text) : Prop := ∀ c, kept.head? = some c → isSpace c = true

theorem isSetOff_iff {kept : Text} : isSetOff kept = true ↔ SetOff kept := by
  cases kept with
  | nil => simp [isSetOff, SetOff]
  | cons c kept => simp [isSetOff, startsWith, SetOff]

theorem setOff_trimEnd {kept : Text} : SetOff (trimEnd kept) ↔ SetOff kept := by
  obtain ⟨w, split, spaces⟩ := exists_trimEnd kept
  generalize trimEnd kept = b at split
  subst split
  cases b with
  | nil => exact iff_of_true (fun _ head => nomatch head) fun c head => spaces c (List.mem_of_mem_head? head)
  | cons c b => exact Iff.rfl

/-! ## The grammar -/

def mark (c : Char) (there : Bool) : Text := if there then [c] else []

def opener (start : Text) (before : Bool) : Text := start ++ mark '~' before ++ "tpl:".toList

/-- `Written t tag rest`: the text `t` is a written form of `tag` and then `rest`. -/
inductive Written : Text → Tag → Text → Prop
  | opening {name t body kept rest : Text} {before after self : Bool} :
      Called name t → Terminated ['>'] false t body rest → Marked body kept after self → SetOff kept →
      Written (opener ['<'] before ++ (name ++ t)) ⟨name, .opening (trim kept) self, before, after⟩ rest
  | closing {name blanks rest : Text} {before after : Bool} :
      Called name (blanks ++ mark '~' after ++ '>' :: rest) → (∀ c ∈ blanks, isBlank c = true) →
      Written (opener ['<', '/'] before ++ (name ++ (blanks ++ mark '~' after ++ '>' :: rest)))
        ⟨name, .closing, before, after⟩ rest
  | value {name t body kept rest : Text} {before after : Bool} :
      Called name t → Terminated ['}', '}'] false t body rest → Tilded body kept after → SetOff kept →
      Written (opener ['{', '{'] before ++ (name ++ t)) ⟨name, .value (trim kept), before, after⟩ rest

theorem Terminated.suffix {needle t body rest : Text} {quoted : Bool} (terminated : Terminated needle quoted t body rest) :
    rest <:+ t :=
  ⟨body ++ needle, terminated.split.symm⟩

/-- What is behind a tag is an end of the text. -/
theorem Written.suffix {t rest : Text} {tag : Tag} (written : Written t tag rest) : rest <:+ t := by
  cases written with
  | opening _ terminated | value _ terminated =>
    exact List.suffix_append_of_suffix (List.suffix_append_of_suffix terminated.suffix)
  | closing =>
    have here (blanks : Text) : rest <:+ blanks ++ '>' :: rest := List.suffix_append_of_suffix (List.suffix_cons ..)
    exact List.suffix_append_of_suffix (List.suffix_append_of_suffix (here _))

/-- A tag starts with a brace or an angle bracket. -/
theorem head?_of_written {t rest : Text} {tag : Tag} (written : Written t tag rest) : t.head? = some '{' ∨ t.head? = some '<' := by
  cases written with
  | opening | closing => exact .inr rfl
  | value => exact .inl rfl

/-! ## What is behind a tag -/

/-- Where a body ends is a matter of the body and its terminator. -/
theorem Terminated.retarget {needle t body rest : Text} {quoted : Bool}
    (terminated : Terminated needle quoted t body rest) (rest' : Text) :
    Terminated needle quoted (body ++ needle ++ rest') body rest' := by
  refine ⟨rfl, terminated.outside, fun u v eq nonempty outside lead => terminated.first u v eq nonempty outside ?_⟩
  have short : needle <+: v ++ needle := List.prefix_of_prefix_length_le lead (List.prefix_append ..) (by simp)
  exact short.trans (List.prefix_append ..)

theorem Called.retarget {name t u : Text} (called : Called name t) (same : u.head? = t.head?) : Called name u :=
  ⟨called.nonempty, called.is_name, fun c head => called.longest c (same ▸ head)⟩

/-- What a text starts with is a matter of what stands in front of its end. -/
theorem head?_append_append (body : Text) {needle : Text} (more : needle ≠ []) (rest rest' : Text) :
    (body ++ needle ++ rest).head? = (body ++ needle ++ rest').head? := by
  have nonempty : body ++ needle ≠ [] := by simp [more]
  rw [List.head?_append_of_ne_nil _ nonempty, List.head?_append_of_ne_nil _ nonempty]

/-- **A tag is written the same whatever follows it.** -/
theorem Written.retarget {w post : Text} {tag : Tag} (written : Written (w ++ post) tag post) (rest : Text) :
    Written (w ++ rest) tag rest := by
  generalize whole : w ++ post = t at written
  cases written with
  | @opening name t body kept _ before after self called terminated marked set_off =>
    have split := terminated.split
    subst split
    have form : w = opener ['<'] before ++ (name ++ body) ++ ['>'] := by
      refine List.append_cancel_right (whole.trans ?_)
      simp only [List.append_assoc]
    have called' := called.retarget (head?_append_append body (by simp) rest post)
    have written : Written (opener ['<'] before ++ (name ++ (body ++ ['>'] ++ rest))) _ rest :=
      .opening called' (terminated.retarget rest) marked set_off
    rw [form]
    simpa only [List.append_assoc] using written
  | @value name t body kept _ before after called terminated tilded set_off =>
    have split := terminated.split
    subst split
    have form : w = opener ['{', '{'] before ++ (name ++ body) ++ ['}', '}'] := by
      refine List.append_cancel_right (whole.trans ?_)
      simp only [List.append_assoc]
    have called' := called.retarget (head?_append_append body (by simp) rest post)
    have written : Written (opener ['{', '{'] before ++ (name ++ (body ++ ['}', '}'] ++ rest))) _ rest :=
      .value called' (terminated.retarget rest) tilded set_off
    rw [form]
    simpa only [List.append_assoc] using written
  | @closing name blanks _ before after called blank =>
    have form : w = opener ['<', '/'] before ++ (name ++ (blanks ++ mark '~' after)) ++ ['>'] := by
      refine List.append_cancel_right (whole.trans ?_)
      simp only [List.append_assoc, List.singleton_append]
    have same := head?_append_append (blanks ++ mark '~' after) (List.cons_ne_nil '>' []) rest post
    rw [List.append_assoc _ ['>'], List.append_assoc _ ['>']] at same
    have written : Written (opener ['<', '/'] before ++ (name ++ (blanks ++ mark '~' after ++ '>' :: rest))) _ rest :=
      .closing (called.retarget same) blank
    rw [form]
    simpa only [List.append_assoc, List.singleton_append] using written

/-! ## The readers -/

section Readers

variable {before : Bool} {t rest : Text} {tag : Tag}

theorem written_of_scanOpening? (found : scanOpening? before t = some (tag, rest)) :
    Written (opener ['<'] before ++ t) tag rest := by
  obtain ⟨⟨name, u⟩, read, behind⟩ := Option.bind_eq_some_iff.1 found
  obtain ⟨⟨body, v⟩, cut, behind⟩ := Option.bind_eq_some_iff.1 behind
  obtain ⟨kept, after, self, marked⟩ := exists_marked body
  dsimp only at behind
  rw [finalMarks_of_marked marked] at behind
  obtain ⟨set_off, eq⟩ := Option.ite_none_right_eq_some.1 behind
  rw [isSetOff_iff, setOff_trimEnd] at set_off
  obtain ⟨rfl, called⟩ := name?_eq_some_iff.1 read
  cases eq
  rw [trim_trimEnd]
  exact .opening called ((cutUnquoted?_eq_some_iff (by decide)).1 cut) marked set_off

theorem scanOpening?_append {name body kept : Text} {after self : Bool} (called : Called name t)
    (terminated : Terminated ['>'] false t body rest) (marked : Marked body kept after self) (set_off : SetOff kept) :
    scanOpening? before (name ++ t) = some (⟨name, .opening (trim kept) self, before, after⟩, rest) := by
  have read : name? (name ++ t) = some (name, t) := name?_eq_some_iff.2 ⟨rfl, called⟩
  have cut := (cutUnquoted?_eq_some_iff (by decide)).2 terminated
  have apart : isSetOff (trimEnd kept) = true := isSetOff_iff.2 (setOff_trimEnd.2 set_off)
  simp only [scanOpening?, read, cut, finalMarks_of_marked marked, apart, trim_trimEnd, Option.bind_eq_bind,
    Option.bind_some, ite_true, Option.pure_def]

theorem written_of_scanClosing? (found : scanClosing? before t = some (tag, rest)) :
    Written (opener ['<', '/'] before ++ t) tag rest := by
  obtain ⟨⟨name, u⟩, read, behind⟩ := Option.bind_eq_some_iff.1 found
  obtain ⟨rfl, called⟩ := name?_eq_some_iff.1 read
  have blank : ∀ c ∈ u.takeWhile isBlank, isBlank c = true := fun _ => List.mem_takeWhile_imp
  have split : u = u.takeWhile isBlank ++ u.dropWhile isBlank := List.takeWhile_append_dropWhile.symm
  have closing (after : Bool) (eq : u.dropWhile isBlank = mark '~' after ++ '>' :: rest) :
      Written (opener ['<', '/'] before ++ (name ++ u)) ⟨name, .closing, before, after⟩ rest := by
    rw [eq, ← List.append_assoc] at split
    rw [split] at called ⊢
    exact .closing called blank
  dsimp only at behind
  split at behind
  · rename_i eq
    cases behind
    exact closing true eq
  · rename_i eq
    cases behind
    exact closing false eq
  · cases behind

theorem scanClosing?_append {name blanks : Text} {after : Bool}
    (called : Called name (blanks ++ mark '~' after ++ '>' :: rest)) (blank : ∀ c ∈ blanks, isBlank c = true) :
    scanClosing? before (name ++ (blanks ++ mark '~' after ++ '>' :: rest)) =
      some (⟨name, .closing, before, after⟩, rest) := by
  have read := name?_eq_some_iff.2 ⟨rfl, called⟩
  have ends : (blanks ++ mark '~' after ++ '>' :: rest).dropWhile isBlank = mark '~' after ++ '>' :: rest := by
    rw [List.append_assoc, List.dropWhile_append_of_pos blank]
    cases after <;> rfl
  simp only [scanClosing?, read, Option.bind_eq_bind, Option.bind_some, ends]
  cases after <;> rfl

theorem written_of_scanValue? (found : scanValue? before t = some (tag, rest)) :
    Written (opener ['{', '{'] before ++ t) tag rest := by
  obtain ⟨⟨name, u⟩, read, behind⟩ := Option.bind_eq_some_iff.1 found
  obtain ⟨⟨body, v⟩, cut, behind⟩ := Option.bind_eq_some_iff.1 behind
  have terminated := (cutUnquoted?_eq_some_iff (by decide)).1 cut
  obtain ⟨rfl, called⟩ := name?_eq_some_iff.1 read
  dsimp only at behind
  rcases sheds_or_bare '~' body with ⟨kept, tilde⟩ | bare
  · rw [(dropLast?_trimEnd_eq_some_iff isSpace_tilde).2 tilde] at behind
    obtain ⟨set_off, eq⟩ := Option.ite_none_right_eq_some.1 behind
    cases eq
    exact .value called terminated (.tilde tilde) (isSetOff_iff.1 set_off)
  · rw [(dropLast?_trimEnd_eq_none_iff isSpace_tilde).2 bare] at behind
    obtain ⟨set_off, eq⟩ := Option.ite_none_right_eq_some.1 behind
    cases eq
    rw [trim_trimEnd]
    exact .value called terminated (.plain bare) (setOff_trimEnd.1 (isSetOff_iff.1 set_off))

theorem scanValue?_append {name body kept : Text} {after : Bool} (called : Called name t)
    (terminated : Terminated ['}', '}'] false t body rest) (tilded : Tilded body kept after) (set_off : SetOff kept) :
    scanValue? before (name ++ t) = some (⟨name, .value (trim kept), before, after⟩, rest) := by
  have read : name? (name ++ t) = some (name, t) := name?_eq_some_iff.2 ⟨rfl, called⟩
  have cut := (cutUnquoted?_eq_some_iff (by decide)).2 terminated
  cases tilded with
  | plain bare =>
    have apart : isSetOff (trimEnd body) = true := isSetOff_iff.2 (setOff_trimEnd.2 set_off)
    simp only [scanValue?, read, cut, (dropLast?_trimEnd_eq_none_iff isSpace_tilde).2 bare, apart, trim_trimEnd,
      Option.bind_eq_bind, Option.bind_some, ite_true, Option.pure_def]
  | tilde tilde =>
    simp only [scanValue?, read, cut, (dropLast?_trimEnd_eq_some_iff isSpace_tilde).2 tilde, isSetOff_iff.2 set_off,
      Option.bind_eq_bind, Option.bind_some, ite_true, Option.pure_def]

end Readers

/-! ## The scanner -/

theorem mem_openers_opening (before : Bool) : (opener ['<'] before, scanOpening? before) ∈ openers := by
  cases before
  · exact .head _
  · exact .tail _ (.head _)

theorem mem_openers_closing (before : Bool) : (opener ['<', '/'] before, scanClosing? before) ∈ openers := by
  cases before
  · exact .tail _ (.tail _ (.head _))
  · exact .tail _ (.tail _ (.tail _ (.head _)))

theorem mem_openers_value (before : Bool) : (opener ['{', '{'] before, scanValue? before) ∈ openers := by
  cases before
  · exact .tail _ (.tail _ (.tail _ (.tail _ (.head _))))
  · exact .tail _ (.tail _ (.tail _ (.tail _ (.tail _ (.head _)))))

theorem openers_cases {o : Text × (Text → Option (Tag × Text))} (mem : o ∈ openers) :
    ∃ before, o = (opener ['<'] before, scanOpening? before) ∨ o = (opener ['<', '/'] before, scanClosing? before) ∨
      o = (opener ['{', '{'] before, scanValue? before) := by
  simp only [openers, List.mem_cons, List.not_mem_nil, or_false] at mem
  rcases mem with rfl | rfl | rfl | rfl | rfl | rfl
  · exact ⟨false, .inl rfl⟩
  · exact ⟨true, .inl rfl⟩
  · exact ⟨false, .inr (.inl rfl)⟩
  · exact ⟨true, .inr (.inl rfl)⟩
  · exact ⟨false, .inr (.inr rfl)⟩
  · exact ⟨true, .inr (.inr rfl)⟩

/-- Neither of two texts starts with the other. -/
def Apart (a b : Text) : Prop := ¬ a <+: b ∧ ¬ b <+: a

instance : DecidableRel Apart := fun _ _ => instDecidableAnd

theorem dropLead?_append_of_apart {lead o t : Text} (apart : Apart lead o) : dropLead? lead (o ++ t) = none := by
  rw [Option.eq_none_iff_forall_ne_some]
  intro rest found
  have leads : lead <+: o ++ t := ⟨rest, (dropLead?_eq_some_iff.1 found).symm⟩
  rcases List.prefix_or_prefix_of_prefix leads (List.prefix_append o t) with leads | leads
  · exact apart.1 leads
  · exact apart.2 leads

theorem openers_apart : openers.Pairwise fun o p => Apart o.1 p.1 := by
  have : (openers.map Prod.fst).Pairwise Apart := by decide
  exact List.pairwise_map.1 this

/-- No opener starts with another one, so a text is read by the reader of its own opener. -/
theorem scan?_append {o : Text × (Text → Option (Tag × Text))} (mem : o ∈ openers) (t : Text) :
    scan? (o.1 ++ t) = o.2 t := by
  obtain ⟨os, ps, split⟩ := List.append_of_mem mem
  have apart := openers_apart
  rw [split, List.pairwise_append, List.pairwise_cons] at apart
  obtain ⟨-, ⟨behind, -⟩, before⟩ := apart
  have earlier : os.findSome? (fun p => (dropLead? p.1 (o.1 ++ t)).bind p.2) = none := by
    rw [List.findSome?_eq_none_iff]
    intro p mem
    rw [dropLead?_append_of_apart (before p mem o (.head _)), Option.bind_none]
  have later : ps.findSome? (fun p => (dropLead? p.1 (o.1 ++ t)).bind p.2) = none := by
    rw [List.findSome?_eq_none_iff]
    intro p mem
    rw [dropLead?_append_of_apart (behind p mem).symm, Option.bind_none]
  rw [scan?, split, List.findSome?_append, earlier, Option.none_or, List.findSome?_cons, later,
    dropLead?_eq_some_iff.2 rfl, Option.bind_some]
  cases o.2 t <;> rfl

/-- **The scanner reads the grammar.** -/
theorem scan?_eq_some_iff {t rest : Text} {tag : Tag} : scan? t = some (tag, rest) ↔ Written t tag rest := by
  constructor
  · intro found
    obtain ⟨o, mem, behind⟩ := List.exists_of_findSome?_eq_some found
    obtain ⟨u, lead, read⟩ := Option.bind_eq_some_iff.1 behind
    rw [dropLead?_eq_some_iff.1 lead]
    obtain ⟨before, rfl | rfl | rfl⟩ := openers_cases mem
    · exact written_of_scanOpening? read
    · exact written_of_scanClosing? read
    · exact written_of_scanValue? read
  · intro written
    cases written with
    | opening called terminated marked set_off =>
      exact (scan?_append (mem_openers_opening _) _).trans (scanOpening?_append called terminated marked set_off)
    | closing called blank =>
      exact (scan?_append (mem_openers_closing _) _).trans (scanClosing?_append called blank)
    | value called terminated tilded set_off =>
      exact (scan?_append (mem_openers_value _) _).trans (scanValue?_append called terminated tilded set_off)

end Tag

end TagTemplate
