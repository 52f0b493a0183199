/-
# Proofs.Token.Partition -- the tokens of a source partition it

The walk goes through a source by offsets.  At each place it takes an opener, a character
that could have started one, or a run of other characters; behind an opener it tries to
read a tag.  What is no tag becomes pending text, of which only the start is kept.

It takes every slice and every move between ends of characters, and its tokens are those of
`tokenize` (`walk_eq`).  The spans of these are not empty, follow each other from the
start of the source to its end, and no two texts are next to each other (`Partition`).
-/
import TagTemplate.Proofs.Token.Offsets

namespace TagTemplate.Token

set_option autoImplicit false

open Text

/-! ## Walking a source -/

abbrev Scanner := Text → Checked (Option (Tag × Nat))

/-- The six openers, each with the scanner for what follows. -/
def scanners : List (Text × Scanner) :=
  [("<tpl:".toList, Tag.openingAt false), ("<~tpl:".toList, Tag.openingAt true),
   ("</tpl:".toList, Tag.closingAt false), ("</~tpl:".toList, Tag.closingAt true),
   ("\x7b\x7btpl:".toList, Tag.valueAt false), ("\x7b\x7b~tpl:".toList, Tag.valueAt true)]

/-- Whether no opener starts with a character. -/
def isPlain (c : Char) : Bool := c != '<' && c != '\x7b'

/-- The longest piece at a place that can be told without reading a tag: an opener with its scanner, a run of
plain characters, or one character. -/
def rawPiece (t : Text) : Text × Option Scanner :=
  match scanners.find? fun o => o.1.isPrefixOf t with
  | some o => (o.1, some o.2)
  | none => if (t.takeWhile isPlain).isEmpty then (t.take 1, none) else (t.takeWhile isPlain, none)

/-- What a scanner finds behind an opener that ends at an offset. -/
def scanAt (source : Text) (stop : Nat) : Option Scanner → Checked (Option (Tag × Nat))
  | none => .ok none
  | some scan =>
    match slice source stop (size source) with
    | .error bad => .error bad
    | .ok remainder => scan remainder

def flush (source : Text) (pending : Option Nat) (stop : Nat) : Checked (List Token) :=
  match pending with
  | none => .ok []
  | some start =>
    if start < stop then
      match slice source start stop with
      | .error bad => .error bad
      | .ok t => .ok [⟨.text t, start, stop⟩]
    else .ok []

/-- A piece is not empty. -/
theorem size_rawPiece_pos (c : Char) (t : Text) : 0 < size (rawPiece (c :: t)).1 := by
  have some_ {s : Text} (ne : s ≠ []) : 0 < size s := by
    apply Nat.pos_of_ne_zero
    exact fun none => ne (eq_nil_of_size none)
  unfold rawPiece
  split
  · rename_i o found
    have mem := List.mem_of_find?_eq_some found
    have all : ∀ o ∈ scanners.map Prod.fst, o ≠ [] := by decide
    exact some_ (all _ (List.mem_map_of_mem mem))
  · split
    · exact some_ (List.cons_ne_nil _ _)
    · rename_i run
      exact some_ fun none => run (List.isEmpty_iff.2 none)

/-- The tokens from an offset to the end of a source, with a text pending since an earlier offset or none. -/
def walk (source : Text) (position : Nat) (pending : Option Nat) : Checked (List Token) :=
  match _here : slice source position (size source) with
  | .error bad => .error bad
  | .ok [] => flush source pending (size source)
  | .ok (c :: t) =>
    let stop := position + size (rawPiece (c :: t)).1
    match scanAt source stop (rawPiece (c :: t)).2 with
    | .error bad => .error bad
    | .ok none => walk source stop (pending.or (some position))
    | .ok (some (tag, n)) =>
      match _moved : bump source stop n with
      | .error bad => .error bad
      | .ok stop =>
        match flush source pending position, walk source stop none with
        | .ok text, .ok tokens => .ok (text ++ ⟨.tag tag, position, stop⟩ :: tokens)
        | .error bad, _ | _, .error bad => .error bad
termination_by size source - position
decreasing_by
  all_goals
    have piece := size_rawPiece_pos c t
    have start := lt_of_slice_to_end _here
    try have ends := eq_of_bump _moved
    omega

def tokenizeByOffsets (source : Text) : Checked (List Token) := (walk source 0 none).map (settle false)

variable {source v t : Text} {pending : Option Nat}

theorem walk_end (whole : source = v) : walk source (size v) pending = flush source pending (size source) := by
  subst whole
  have here : slice source (size source) (size source) = .ok [] := by simpa using slice_to_end source []
  rw [walk]
  split
  · rename_i eq
    cases eq.symm.trans here
  · rfl
  · rename_i eq
    cases eq.symm.trans here

/-- A piece that is no tag becomes pending. -/
theorem walk_text (whole : source = v ++ t) (more : t ≠ [])
    (none : scanAt source (size v + size (rawPiece t).1) (rawPiece t).2 = .ok none) :
    walk source (size v) pending = walk source (size v + size (rawPiece t).1) (pending.or (some (size v))) := by
  subst whole
  have here := slice_to_end v t
  rw [walk]
  split
  · rename_i eq
    cases eq.symm.trans here
  · rename_i eq
    cases eq.symm.trans here
    exact absurd rfl more
  · rename_i c u eq
    cases eq.symm.trans here
    simp only [none]

/-- A tag ends the pending text. -/
theorem walk_tag (whole : source = v ++ t) (more : t ≠ []) {tag : Tag} {n stop : Nat}
    (found : scanAt source (size v + size (rawPiece t).1) (rawPiece t).2 = .ok (some (tag, n)))
    (moved : bump source (size v + size (rawPiece t).1) n = .ok stop) {text tokens : List Token}
    (flushed : flush source pending (size v) = .ok text) (rest : walk source stop none = .ok tokens) :
    walk source (size v) pending = .ok (text ++ ⟨.tag tag, size v, stop⟩ :: tokens) := by
  subst whole
  have here := slice_to_end v t
  rw [walk]
  split
  · rename_i eq
    cases eq.symm.trans here
  · rename_i eq
    cases eq.symm.trans here
    exact absurd rfl more
  · rename_i c u eq
    cases eq.symm.trans here
    simp only [found]
    split
    · rename_i eq
      cases eq.symm.trans moved
    · rename_i eq
      cases eq.symm.trans moved
      simp only [flushed, rest]

/-! ## Pieces -/

/-- No tag starts inside of a piece, with some text behind it. -/
def Solid (piece rest : Text) : Prop := ∀ u, u <:+ piece.tail → u ≠ [] → Tag.scan? (u ++ rest) = none

theorem scan?_of_not_opens {t : Text} (none : ¬ Tag.Opens t) : Tag.scan? t = Option.none := by
  rw [Option.eq_none_iff_forall_ne_some]
  rintro ⟨tag, rest⟩ found
  obtain ⟨lead, mem, leads⟩ := (Tag.scan?_eq_some_iff.1 found).lead
  have opens : ∀ lead ∈ Tag.leads, ['<'] <+: lead ∨ ['\x7b', '\x7b'] <+: lead := by decide
  apply none
  exact .inr ((opens lead mem).imp (·.trans leads) (·.trans leads))

/-- Each scanner measures what the reader of its opener reads. -/
theorem exists_reader {o : Text × Scanner} (mem : o ∈ scanners) :
    ∃ read, (o.1, read) ∈ Tag.openers ∧ Tag.Measures o.2 read := by
  simp only [scanners, List.mem_cons, List.not_mem_nil, or_false] at mem
  rcases mem with rfl | rfl | rfl | rfl | rfl | rfl
  · exact ⟨_, Tag.mem_openers_opening false, Tag.measures_opening false⟩
  · exact ⟨_, Tag.mem_openers_opening true, Tag.measures_opening true⟩
  · exact ⟨_, Tag.mem_openers_closing false, Tag.measures_closing false⟩
  · exact ⟨_, Tag.mem_openers_closing true, Tag.measures_closing true⟩
  · exact ⟨_, Tag.mem_openers_value false, Tag.measures_value false⟩
  · exact ⟨_, Tag.mem_openers_value true, Tag.measures_value true⟩

theorem scan?_of_no_opener (none : scanners.find? (fun o => o.1.isPrefixOf t) = Option.none) :
    Tag.scan? t = Option.none := by
  rw [Option.eq_none_iff_forall_ne_some]
  rintro ⟨tag, rest⟩ found
  obtain ⟨lead, mem, leads⟩ := (Tag.scan?_eq_some_iff.1 found).lead
  have same : Tag.leads = scanners.map Prod.fst := by decide
  rw [same] at mem
  obtain ⟨o, known, rfl⟩ := List.mem_map.1 mem
  exact List.find?_eq_none.1 none o known (List.isPrefixOf_iff_prefix.2 leads)

/-- A tag ends behind its opener. -/
theorem suffix_of_read {o : Text × (Text → Option (Tag × Text))} (mem : o ∈ Tag.openers) {rest after : Text} {tag : Tag}
    (read : o.2 rest = some (tag, after)) : after <:+ rest := by
  have found := (Tag.scan?_append mem rest).trans read
  apply List.suffix_of_suffix_length_le (Tag.scan?_eq_some_iff.1 found).suffix (List.suffix_append o.1 rest)
  obtain ⟨before, rfl | rfl | rfl⟩ := Tag.openers_cases mem
  · exact Tag.length_of_scanOpening? read
  · exact Tag.length_of_scanClosing? read
  · exact Tag.length_of_scanValue? read

/-- **What a piece is**: the front of the text, with no tag inside of it, and the scanner behind it finds the tag that
starts with it, if there is one. -/
theorem exists_rawPiece (t : Text) :
    ∃ rest, t = (rawPiece t).1 ++ rest ∧ Solid (rawPiece t).1 rest ∧
      (∀ v, scanAt (v ++ t) (size v + size (rawPiece t).1) (rawPiece t).2 = .ok (Tag.measured rest (Tag.scan? t))) ∧
      ∀ tag after, Tag.scan? t = some (tag, after) → after <:+ rest := by
  unfold rawPiece
  cases found : scanners.find? fun o => o.1.isPrefixOf t with
  | some o =>
    have leads : o.1.isPrefixOf t = true := by simpa using List.find?_some found
    obtain ⟨rest, rfl⟩ := List.isPrefixOf_iff_prefix.1 leads
    obtain ⟨read, mem, measures⟩ := exists_reader (List.mem_of_find?_eq_some found)
    refine ⟨rest, rfl, fun u inside more => ?_, fun v => ?_, fun tag after scan => ?_⟩
    · apply scan?_of_not_opens
      exact Tag.not_opens_append (List.mem_map_of_mem mem) inside more rest
    · have behind : slice (v ++ (o.1 ++ rest)) (size v + size o.1) (size (v ++ (o.1 ++ rest))) = .ok rest := by
        rw [← List.append_assoc, ← size_append, slice_to_end]
      simp only [scanAt, behind, measures rest, Tag.scan?_append mem rest]
    · exact suffix_of_read mem ((Tag.scan?_append mem rest).symm.trans scan)
  | none =>
    have none := scan?_of_no_opener found
    simp only [none]
    split
    · refine ⟨t.drop 1, (List.take_append_drop 1 t).symm, fun u inside more => ?_, fun _ => rfl, nofun⟩
      rcases t with - | ⟨c, t⟩ <;> exact absurd (List.suffix_nil.1 inside) more
    · refine ⟨t.dropWhile isPlain, List.takeWhile_append_dropWhile.symm, fun u inside more => ?_, fun _ => rfl, nofun⟩
      obtain ⟨c, u, rfl⟩ := List.exists_cons_of_ne_nil more
      have plain : isPlain c = true := by
        apply List.mem_takeWhile_imp (l := t)
        exact List.mem_of_mem_tail (inside.subset (List.mem_cons_self ..))
      apply scan?_of_not_opens
      rintro (eq | angle | braces)
      · cases eq
      · obtain rfl := (List.cons_prefix_cons.1 angle).1
        cases plain
      · obtain rfl := (List.cons_prefix_cons.1 braces).1
        cases plain

/-! ## Pending text -/

def textOf (pending : Text) : List Lexeme := if pending = [] then [] else [⟨.text pending, pending⟩]

def since (start : Nat) (pending : Text) : Option Nat := if pending = [] then none else some start

theorem foldr_consChar_nil (pending : Text) : pending.foldr consChar [] = textOf pending := by
  induction pending with
  | nil => rfl
  | cons c pending ih =>
    rw [List.foldr_cons, ih]
    cases pending <;> rfl

theorem foldr_consChar_tag (pending : Text) (tag : Tag) (slice : Text) (ls : List Lexeme) :
    pending.foldr consChar (⟨.tag tag, slice⟩ :: ls) = textOf pending ++ ⟨.tag tag, slice⟩ :: ls := by
  induction pending with
  | nil => rfl
  | cons c pending ih =>
    rw [List.foldr_cons, ih]
    cases pending <;> rfl

theorem place_textOf (offset : Nat) (pending : Text) (ls : List Lexeme) :
    place offset (textOf pending ++ ls) = place offset (textOf pending) ++ place (offset + size pending) ls := by
  cases pending <;> rfl

/-- A pending text is flushed as its token. -/
theorem flush_since (before pending t : Text) :
    flush (before ++ pending ++ t) (since (size before) pending) (size (before ++ pending))
      = .ok (place (size before) (textOf pending)) := by
  cases pending with
  | nil => rfl
  | cons c pending =>
    have taken : slice (before ++ c :: pending ++ t) (size before) (size before + size (c :: pending))
        = .ok (c :: pending) := slice_eq_ok_iff.2 ⟨before, t, rfl, rfl, rfl⟩
    have pos := Char.utf8Size_pos c
    have more : size before < size before + size (c :: pending) := by
      rw [size_cons]
      omega
    simp only [since, if_neg (List.cons_ne_nil c pending), flush, size_append, more, if_true, taken]
    rfl

theorem since_append (before pending : Text) {piece : Text} (more : piece ≠ []) :
    (since (size before) pending).or (some (size (before ++ pending))) = since (size before) (pending ++ piece) := by
  cases pending with
  | nil => simp [since, more]
  | cons c pending => rfl

/-- The characters of a piece come one by one, if no tag starts with any of them. -/
theorem lexemes_of_solid {piece rest : Text} (none : ∀ u, u <:+ piece → u ≠ [] → Tag.scan? (u ++ rest) = none) :
    lexemes (piece ++ rest) = piece.foldr consChar (lexemes rest) := by
  induction piece with
  | nil => rfl
  | cons c piece ih =>
    have here := none (c :: piece) (List.suffix_refl _) (List.cons_ne_nil _ _)
    rw [List.cons_append] at here ⊢
    rw [lexemes_of_none here, ih fun u inside => none u (inside.trans (List.suffix_cons ..)), List.foldr_cons]

/-! ## The walk -/

/-- **The walk cuts a source as its grammar does**, and every slice it takes is one. -/
theorem walk_eq {source before pending rest : Text} (whole : source = before ++ pending ++ rest) :
    walk source (size (before ++ pending)) (since (size before) pending)
      = .ok (place (size before) (pending.foldr consChar (lexemes rest))) := by
  induction length : rest.length using Nat.strong_induction_on generalizing before pending rest with
  | _ n ih =>
    subst length
    by_cases ends : rest = []
    · subst ends
      rw [List.append_nil] at whole
      have flushed := flush_since before pending []
      rw [List.append_nil] at flushed
      rw [walk_end whole, whole, flushed, lexemes_nil, foldr_consChar_nil]
    · obtain ⟨behind, split, solid, scanned, suffix⟩ := exists_rawPiece rest
      have found := scanned (before ++ pending)
      rw [← whole] at found
      have nonempty : (rawPiece rest).1 ≠ [] := by
        obtain ⟨c, t, rfl⟩ := List.exists_cons_of_ne_nil ends
        intro none
        simpa [none] using size_rawPiece_pos c t
      have shorter : behind.length < rest.length := by
        have := List.length_pos_iff.2 nonempty
        rw [split, List.length_append]
        omega
      generalize piece_eq : (rawPiece rest).1 = piece at split solid found nonempty
      cases scan : Tag.scan? rest with
      | none =>
        rw [scan] at found
        have whole' : source = before ++ (pending ++ piece) ++ behind := by simp [whole, split]
        have next := ih behind.length shorter whole' rfl
        have solid' : ∀ u, u <:+ piece → u ≠ [] → Tag.scan? (u ++ behind) = none := by
          intro u inside more
          obtain ⟨c, t, rfl⟩ := List.exists_cons_of_ne_nil nonempty
          rcases List.suffix_cons_iff.1 inside with rfl | inside
          · rw [← split, scan]
          · exact solid u inside more
        rw [walk_text whole ends (by rw [piece_eq]; exact found), piece_eq, since_append before pending nonempty,
          ← size_append, List.append_assoc, next, List.foldr_append, ← lexemes_of_solid solid', ← split]
      | some p =>
        obtain ⟨tag, after⟩ := p
        obtain ⟨m, rfl⟩ := suffix tag after scan
        have bytes : size (m ++ after) - size after = size m := by simp
        rw [scan] at found
        simp only [Tag.measured, Option.map_some, bytes] at found
        have moved : bump source (size (before ++ pending) + size piece) (size m)
            = .ok (size (before ++ pending ++ (piece ++ m))) := by
          have := bump_append (before ++ pending ++ piece) m after
          rw [whole, split, ← size_append]
          simpa using this
        have whole' : source = before ++ pending ++ (piece ++ m) ++ [] ++ after := by simp [whole, split]
        have next := ih after.length (by rw [List.length_append] at shorter; omega) whole' rfl
        rw [List.append_nil] at next
        have flushed := flush_since before pending rest
        rw [← whole] at flushed
        have cut : lexemes rest = ⟨.tag tag, piece ++ m⟩ :: lexemes after := by
          have written := Tag.scan?_eq_some_iff.1 scan
          rw [split, ← List.append_assoc] at written ⊢
          exact lexemes_of_written written
        rw [walk_tag whole ends (by rw [piece_eq]; exact found) (by rw [piece_eq]; exact moved) flushed next, cut,
          foldr_consChar_tag, place_textOf, place_cons]
        simp only [size_append, Nat.add_assoc]
        rfl

/-! ## Spans -/

/-- Tokens that are not empty and follow each other from one offset to another. -/
inductive Tiles : Nat → List Token → Nat → Prop
  | nil (a : Nat) : Tiles a [] a
  | cons {a b : Nat} {token : Token} {tokens : List Token} (start : token.start = a) (more : a < token.stop)
      (rest : Tiles token.stop tokens b) : Tiles a (token :: tokens) b

/-- Whether a character of a source ends at an offset, or its first one starts there. -/
def IsBoundary (source : Text) (n : Nat) : Prop := ∃ v, v <+: source ∧ size v = n

/-- Not both of two fragments are texts. -/
def Parted (p q : Fragment) : Prop := (∃ tag, p = .tag tag) ∨ ∃ tag, q = .tag tag

/-- The spans of some tokens are a partition of a source. -/
structure Partition (source : Text) (tokens : List Token) : Prop where
  nonempty : ∀ token ∈ tokens, token.start < token.stop
  first : ∀ token, tokens.head? = some token → token.start = 0
  consecutive : tokens.IsChain fun p q => q.start = p.stop
  last : ∀ token, tokens.getLast? = some token → token.stop = size source
  none : tokens = [] ↔ source = []
  boundaries : ∀ token ∈ tokens, IsBoundary source token.start ∧ IsBoundary source token.stop
  parted : tokens.IsChain fun p q => Parted p.fragment q.fragment

theorem flatMap_slice_consChar (c : Char) (ls : List Lexeme) :
    (consChar c ls).flatMap (·.slice) = c :: ls.flatMap (·.slice) := by
  unfold consChar
  split <;> simp

/-- The lexemes of a source are it, in pieces. -/
theorem flatMap_slice_lexemes (t : Text) : (lexemes t).flatMap (·.slice) = t := by
  induction t using cut_induction with
  | nil => simp
  | tag written ih => rw [lexemes_of_written written, List.flatMap_cons, ih]
  | char none ih => rw [lexemes_of_none none, flatMap_slice_consChar, ih]

/-- A lexeme that says the same wherever its slice stands: text is the slice, and a tag is written as the slice whatever
follows it. -/
def Movable (l : Lexeme) : Prop :=
  match l.fragment with
  | .text x => l.slice = x
  | .tag t => ∀ rest, Tag.Written (l.slice ++ rest) t rest

theorem movable_lexemes (t : Text) : ∀ l ∈ lexemes t, Movable l := by
  induction t using cut_induction with
  | nil => simp
  | tag written ih =>
    rw [lexemes_of_written written]
    exact List.forall_mem_cons.2 ⟨written.retarget, ih⟩
  | @char c t none ih =>
    rw [lexemes_of_none none]
    generalize lexemes t = ls at ih
    rcases ls with - | ⟨⟨x | tag, slice⟩, ls⟩
    · exact List.forall_mem_singleton.2 rfl
    · obtain ⟨here, rest⟩ := List.forall_mem_cons.1 ih
      exact List.forall_mem_cons.2 ⟨congrArg (c :: ·) here, rest⟩
    · exact List.forall_mem_cons.2 ⟨rfl, ih⟩

theorem slice_ne_nil (t : Text) : ∀ l ∈ lexemes t, l.slice ≠ [] := by
  induction t using cut_induction with
  | nil => simp
  | @tag slice rest _ written ih =>
    rw [lexemes_of_written written]
    intro l mem
    rcases List.mem_cons.1 mem with rfl | mem
    · rintro rfl
      have := Tag.length_of_scan? (Tag.scan?_eq_some_iff.2 written)
      exact absurd this (Nat.lt_irrefl _)
    · exact ih l mem
  | @char c t none ih =>
    rw [lexemes_of_none none]
    intro l mem
    unfold consChar at mem
    split at mem
    · rename_i eq
      rcases List.mem_cons.1 mem with rfl | mem
      · exact List.cons_ne_nil _ _
      · exact ih l (eq ▸ List.mem_cons_of_mem _ mem)
    · rcases List.mem_cons.1 mem with rfl | mem
      · exact List.cons_ne_nil _ _
      · exact ih l mem

theorem parted_lexemes (t : Text) : (lexemes t).IsChain fun p q => Parted p.fragment q.fragment := by
  induction t using cut_induction with
  | nil => simp
  | @tag slice rest tag written ih =>
    rw [lexemes_of_written written, List.isChain_cons]
    exact ⟨fun _ _ => .inl ⟨tag, rfl⟩, ih⟩
  | @char c t none ih =>
    rw [lexemes_of_none none]
    generalize lexemes t = ls at ih
    rcases ls with - | ⟨⟨x | tag, slice⟩, ls⟩
    · exact .singleton _
    · -- the text at the front grows, and what follows it is the same
      rw [consChar, List.isChain_cons]
      obtain ⟨next, rest⟩ := List.isChain_cons.1 ih
      refine ⟨fun q mem => ?_, rest⟩
      obtain ⟨tag, eq⟩ | tagged := next q mem
      · cases eq
      · exact .inr tagged
    · rw [consChar, List.isChain_cons]
      · refine ⟨fun q mem => .inr ⟨tag, ?_⟩, ih⟩
        cases mem
        rfl
      · intro _ _ _ eq
        cases eq

theorem tiles_place (offset : Nat) {ls : List Lexeme} (nonempty : ∀ l ∈ ls, l.slice ≠ []) :
    Tiles offset (place offset ls) (offset + size (ls.flatMap (·.slice))) := by
  induction ls generalizing offset with
  | nil => exact .nil offset
  | cons l ls ih =>
    have more : size l.slice ≠ 0 := fun none => nonempty l (List.mem_cons_self ..) (eq_nil_of_size none)
    have rest := ih (offset + size l.slice) fun l mem => nonempty l (List.mem_cons_of_mem _ mem)
    rw [List.flatMap_cons, size_append, ← Nat.add_assoc]
    exact .cons rfl (Nat.lt_add_of_pos_right (Nat.pos_of_ne_zero more)) rest

/-- Where a token is placed, its lexeme is. -/
theorem lexeme_of_mem_place {offset : Nat} {ls : List Lexeme} {token : Token} (mem : token ∈ place offset ls) :
    ∃ v l w, ls.flatMap (·.slice) = v ++ l.slice ++ w ∧ l ∈ ls ∧
      token = ⟨l.fragment, offset + size v, offset + size v + size l.slice⟩ := by
  induction ls generalizing offset with
  | nil => exact nomatch mem
  | cons l ls ih =>
    rcases List.mem_cons.1 mem with rfl | mem
    · exact ⟨[], l, ls.flatMap (·.slice), rfl, List.mem_cons_self .., rfl⟩
    · obtain ⟨v, l', w, whole, mem', rfl⟩ := ih mem
      refine ⟨l.slice ++ v, l', w, by simp [whole], List.mem_cons_of_mem _ mem', ?_⟩
      rw [size_append, Nat.add_assoc offset]

theorem slice_of_mem_place {offset : Nat} {ls : List Lexeme} {token : Token} (mem : token ∈ place offset ls) :
    ∃ v s w, ls.flatMap (·.slice) = v ++ s ++ w ∧ token.start = offset + size v ∧
      token.stop = offset + size (v ++ s) := by
  obtain ⟨v, l, w, whole, -, rfl⟩ := lexeme_of_mem_place mem
  exact ⟨v, l.slice, w, whole, rfl, by rw [size_append, Nat.add_assoc]⟩

namespace Tiles

variable {a b : Nat} {tokens : List Token}

theorem nonempty (tiles : Tiles a tokens b) : ∀ token ∈ tokens, token.start < token.stop := by
  induction tiles with
  | nil => simp
  | cons start more _ ih =>
    intro token mem
    rcases List.mem_cons.1 mem with rfl | mem
    · omega
    · exact ih token mem

theorem head (tiles : Tiles a tokens b) : ∀ token, tokens.head? = some token → token.start = a := by
  cases tiles with
  | nil => simp
  | cons start => simpa using start

theorem consecutive (tiles : Tiles a tokens b) : tokens.IsChain fun p q => q.start = p.stop := by
  induction tiles with
  | nil => simp
  | cons _ _ rest ih => exact List.isChain_cons.2 ⟨rest.head, ih⟩

theorem last (tiles : Tiles a tokens b) : ∀ token, tokens.getLast? = some token → token.stop = b := by
  induction tiles with
  | nil => simp
  | @cons _ b token tokens _ _ rest ih =>
    intro token' found
    cases rest with
    | nil =>
      cases found
      rfl
    | cons => exact ih token' found

theorem le (tiles : Tiles a tokens b) : a ≤ b := by
  induction tiles with
  | nil => exact Nat.le_refl _
  | cons _ more _ ih => omega

theorem eq_nil_iff (tiles : Tiles a tokens b) : tokens = [] ↔ a = b := by
  cases tiles with
  | nil => simp
  | cons _ more rest =>
    have := rest.le
    simp
    omega

/-- Strip modifiers leave spans as they are. -/
theorem settle (tiles : Tiles a tokens b) (stripped : Bool) : Tiles a (settle stripped tokens) b := by
  induction tiles generalizing stripped with
  | nil a => exact .nil a
  | cons start more _ ih =>
    rw [settle_cons]
    exact .cons start more (ih _)

end Tiles

/-- Every token that was settled is one that was there, between its neighbours. -/
theorem exists_of_mem_settle {stripped : Bool} {ts : List Token} {token : Token} (mem : token ∈ settle stripped ts) :
    ∃ token' ∈ ts, token.start = token'.start ∧ token.stop = token'.stop := by
  induction ts generalizing stripped with
  | nil => exact nomatch mem
  | cons t ts ih =>
    rw [settle_cons] at mem
    rcases List.mem_cons.1 mem with rfl | mem
    · exact ⟨t, List.mem_cons_self .., rfl, rfl⟩
    · obtain ⟨token', mem, spans⟩ := ih mem
      exact ⟨token', List.mem_cons_of_mem _ mem, spans⟩

theorem parted_settled {p q : Fragment} (parted : Parted p q) (lead trail lead' trail' : Bool) :
    Parted (p.settled lead trail) (q.settled lead' trail') := by
  refine parted.imp ?_ ?_ <;>
  · rintro ⟨tag, rfl⟩
    exact ⟨tag, rfl⟩

theorem isChain_settle {ts : List Token} (parted : ts.IsChain fun p q => Parted p.fragment q.fragment)
    (stripped : Bool) : (settle stripped ts).IsChain fun p q => Parted p.fragment q.fragment := by
  induction ts generalizing stripped with
  | nil => exact .nil
  | cons p ts ih =>
    rw [settle_cons]
    cases ts with
    | nil => exact .singleton _
    | cons q ts =>
      obtain ⟨here, rest⟩ := List.isChain_cons_cons.1 parted
      have settled := ih rest p.fragment.stripsBehind
      rw [settle_cons] at settled ⊢
      exact List.isChain_cons_cons.2 ⟨parted_settled here .., settled⟩

theorem isChain_place {offset : Nat} {ls : List Lexeme}
    (parted : ls.IsChain fun p q => Parted p.fragment q.fragment) :
    (place offset ls).IsChain fun p q => Parted p.fragment q.fragment := by
  induction ls generalizing offset with
  | nil => exact .nil
  | cons l ls ih =>
    cases ls with
    | nil => exact .singleton _
    | cons m ls =>
      obtain ⟨here, rest⟩ := List.isChain_cons_cons.1 parted
      exact List.isChain_cons_cons.2 ⟨here, ih rest⟩

/-- **Tokens partition their source**: their spans are not empty, follow each other between ends of characters from the
start of the source to its end, and no two texts are next to each other.  A scanner that finds them by offsets never
takes a slice that is none. -/
theorem tokenize_partitions (source : Text) :
    tokenizeByOffsets source = .ok (tokenize source) ∧ Partition source (tokenize source) := by
  constructor
  · have walked : walk source 0 none = .ok (place 0 (lexemes source)) := @walk_eq source [] [] source rfl
    rw [tokenizeByOffsets, walked]
    rfl
  · have placed : Tiles 0 (place 0 (lexemes source)) (size source) := by
      simpa [flatMap_slice_lexemes] using tiles_place 0 (slice_ne_nil source)
    have tiles : Tiles 0 (tokenize source) (size source) := placed.settle false
    refine ⟨tiles.nonempty, tiles.head, tiles.consecutive, tiles.last, ?_, fun token mem => ?_, ?_⟩
    · rw [tiles.eq_nil_iff]
      constructor
      · exact fun none => eq_nil_of_size none.symm
      · rintro rfl
        rfl
    · obtain ⟨token', mem, start, stop⟩ := exists_of_mem_settle mem
      obtain ⟨v, s, w, whole, start', stop'⟩ := slice_of_mem_place mem
      rw [flatMap_slice_lexemes] at whole
      rw [start, stop, start', stop', Nat.zero_add, Nat.zero_add, whole]
      exact ⟨⟨v, ⟨s ++ w, by simp⟩, rfl⟩, ⟨v ++ s, List.prefix_append .., rfl⟩⟩
    · exact isChain_settle (isChain_place (parted_lexemes source)) false

end TagTemplate.Token
