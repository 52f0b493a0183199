/-
# Proofs.Token.Printing -- tokens read back what was written

A `Document` is what a template can be written as: texts without `tpl:`, no two of them in
a row, and tags of every form, their attributes with any value that has no double quote.
Its tokens are its elements (`tokenize_print`): the tags with their names, forms, marks and
attributes, and the texts without the blanks that the tags beside them strip.

Three readers have to agree for this.  The search for a terminator must skip the values,
which may hold terminators, marks and whole tags (`terminated_printAll`); the marks must be
those behind the attributes, which end in a double quote (`marked_print`); and the pairs
must be found again in the trimmed body (`attributes_tag`).  Between the elements, no opener
may reach from the end of a text into a tag (`scan?_of_plain`).
-/
import Mathlib.Data.List.Chain
import Mathlib.Data.List.Infix
import TagTemplate.Proofs.Attributes
import TagTemplate.Proofs.Token.Placement

namespace TagTemplate

set_option autoImplicit false

open Text

/-! ## Written tags -/

/-- What a tag is written as, apart from its name and its strip modifiers. -/
inductive Form.Shape where
  | opening (attributes : List Attribute) (selfClosing : Bool)
  | closing
  | value (attributes : List Attribute)

structure Form where
  name : Text
  shape : Form.Shape
  stripBefore : Bool
  stripAfter : Bool
  nonempty : name ≠ []
  is_name : Tag.IsName name

namespace Form

def attributes (f : Form) : List Attribute :=
  match f.shape with
  | .opening as _ => as
  | .closing => []
  | .value as => as

def tag (f : Form) : Tag where
  name := f.name
  shape :=
    match f.shape with
    | .opening as self => .opening (trim (Attribute.printAll as)) self
    | .closing => .closing
    | .value as => .value (trim (Attribute.printAll as))
  stripBefore := f.stripBefore
  stripAfter := f.stripAfter

/-- The written form: the opener, the name, the attributes, the final marks and the terminator. -/
def print (f : Form) : Text :=
  match f.shape with
  | .opening as self =>
    Tag.opener ['<'] f.stripBefore ++ (f.name ++
      (Attribute.printAll as ++ (Tag.mark '~' f.stripAfter ++ Tag.mark '/' self) ++ ['>']))
  | .closing => Tag.opener ['<', '/'] f.stripBefore ++ (f.name ++ (Tag.mark '~' f.stripAfter ++ ['>']))
  | .value as =>
    Tag.opener ['{', '{'] f.stripBefore ++ (f.name ++
      (Attribute.printAll as ++ Tag.mark '~' f.stripAfter ++ ['}', '}']))

end Form

/-! ## The search for a terminator -/

namespace Tag

section Terminated

variable {n : Char} {needle t body rest : Text}

/-- Plain characters are passed over. -/
theorem terminated_append {p : Text} (plain : ∀ c ∈ p, c ≠ '"' ∧ c ≠ n)
    (terminated : Terminated (n :: needle) false t body rest) :
    Terminated (n :: needle) false (p ++ t) (p ++ body) rest := by
  induction p with
  | nil => exact terminated
  | cons c p ih =>
    obtain ⟨unquoted, other⟩ := plain c (List.mem_cons_self ..)
    refine (terminated_cons unquoted fun _ lead => ?_).2 ⟨_, rfl, ih fun d mem => plain d (.tail _ mem)⟩
    exact other (List.cons_prefix_cons.1 lead).1.symm

/-- In a value everything is passed over, up to the double quote at its end. -/
theorem terminated_value (unquote : n ≠ '"') {v : Text} (unquoted : '"' ∉ v)
    (terminated : Terminated (n :: needle) false t body rest) :
    Terminated (n :: needle) true (v ++ '"' :: t) (v ++ '"' :: body) rest := by
  induction v with
  | nil => exact (terminated_quote unquote).2 ⟨body, rfl, terminated⟩
  | cons c v ih =>
    obtain ⟨ne, unquoted⟩ := not_or.1 (List.mem_cons.not.1 unquoted)
    have quoted : true = false → ¬ n :: needle <+: c :: (v ++ '"' :: t) := nofun
    exact (terminated_cons (Ne.symm ne) quoted).2 ⟨_, rfl, ih unquoted⟩

/-- Attributes are passed over, whatever their values hold. -/
theorem terminated_printAll (no_key : Attributes.isKeyChar n = false) (other : n ∉ [' ', '=', '"'])
    (as : List Attribute) (terminated : Terminated (n :: needle) false t body rest) :
    Terminated (n :: needle) false (Attribute.printAll as ++ t) (Attribute.printAll as ++ body) rest := by
  induction as with
  | nil => exact terminated
  | cons a as ih =>
    have split (u : Text) : Attribute.printAll (a :: as) ++ u =
        (' ' :: a.key ++ ['=']) ++ '"' :: (a.value ++ '"' :: (Attribute.printAll as ++ u)) := by
      simp [Attribute.printAll, Attribute.print]
    have unquote : n ≠ '"' := fun eq => other (by simp [eq])
    have plain : ∀ c ∈ ' ' :: a.key ++ ['='], c ≠ '"' ∧ c ≠ n := by
      intro c mem
      rcases List.mem_append.1 mem with mem | mem
      · rcases List.mem_cons.1 mem with rfl | mem
        · exact ⟨by decide, fun eq => other (by simp [← eq])⟩
        · have key := a.is_key c mem
          exact ⟨fun eq => by simp [eq, Attributes.isKeyChar] at key, fun eq => by simp [eq, no_key] at key⟩
      · obtain rfl := List.mem_singleton.1 mem
        exact ⟨by decide, fun eq => other (by simp [← eq])⟩
    rw [split, split]
    exact terminated_append plain ((terminated_quote unquote).2 ⟨_, rfl, terminated_value unquote a.unquoted ih⟩)

end Terminated

/-! ## The marks behind the attributes -/

theorem bare_nil (c : Char) : Bare c [] := by
  rintro kept ⟨w, eq, -⟩
  simp at eq

theorem bare_concat {c d : Char} (solid : isSpace c = false) (solid' : isSpace d = false) (ne : d ≠ c) (b : Text) :
    Bare c (b ++ [d]) :=
  bare_of_sheds solid' solid ne ⟨[], rfl, nofun⟩

/-- Written attributes end in a double quote, unless there are none. -/
theorem printAll_cases (as : List Attribute) : Attribute.printAll as = [] ∨ ∃ b, Attribute.printAll as = b ++ ['"'] := by
  cases as using List.reverseRecOn with
  | nil => exact .inl rfl
  | append_singleton as a =>
    refine .inr ⟨Attribute.printAll as ++ ' ' :: (a.key ++ "=\"".toList ++ a.value), ?_⟩
    simp [Attribute.printAll, Attribute.print]

theorem bare_printAll {c : Char} (solid : isSpace c = false) (ne : '"' ≠ c) (as : List Attribute) :
    Bare c (Attribute.printAll as) := by
  rcases printAll_cases as with eq | ⟨b, eq⟩
  · rw [eq]
    exact bare_nil c
  · rw [eq]
    exact bare_concat solid (by decide) ne b

theorem trimEnd_printAll (as : List Attribute) : trimEnd (Attribute.printAll as) = Attribute.printAll as := by
  rcases printAll_cases as with eq | ⟨b, eq⟩
  · rw [eq]
    rfl
  · rw [eq]
    exact trimEnd_concat (by decide)

theorem setOff_printAll (as : List Attribute) : SetOff (Attribute.printAll as) := by
  cases as with
  | nil => exact nofun
  | cons a as =>
    rintro c head
    obtain rfl := Option.some.inj head
    decide

theorem sheds_mark (c : Char) (b : Text) : Sheds c (b ++ [c]) b := ⟨[], rfl, nofun⟩

theorem marked_print (as : List Attribute) (after self : Bool) :
    Marked (Attribute.printAll as ++ (mark '~' after ++ mark '/' self)) (Attribute.printAll as) after self := by
  have tilde := bare_printAll isSpace_tilde (by decide) as
  have slash := bare_printAll isSpace_slash (by decide) as
  cases after <;> cases self
  · simpa [mark] using Marked.plain tilde slash
  · simpa [mark] using Marked.slash (sheds_mark '/' _) tilde
  · simpa [mark] using Marked.tilde (sheds_mark '~' _) slash
  · rw [← List.append_assoc]
    exact .tildeSlash (sheds_mark '/' _) (sheds_mark '~' _)

theorem mem_mark {c d : Char} {there : Bool} (mem : d ∈ mark c there) : d = c := by
  cases there
  · exact nomatch mem
  · exact List.mem_singleton.1 mem

theorem tilded_print (as : List Attribute) (after : Bool) :
    Tilded (Attribute.printAll as ++ mark '~' after) (Attribute.printAll as) after := by
  cases after
  · simpa [mark] using Tilded.plain (bare_printAll isSpace_tilde (by decide) as)
  · exact .tilde (sheds_mark '~' _)

section Body

variable {n : Char} {marks : Text} (as : List Attribute) (needle rest : Text)

/-- Behind a name the attributes, the marks and the terminator start with a character that is in no name. -/
theorem called_print {name : Text} (nonempty : name ≠ []) (is_name : IsName name) (no_name : isNameChar n = false)
    (only : ∀ c ∈ marks, isNameChar c = false) :
    Called name (Attribute.printAll as ++ marks ++ (n :: needle ++ rest)) := by
  refine ⟨nonempty, is_name, fun c head => ?_⟩
  cases as with
  | cons a as =>
    obtain rfl := Option.some.inj head
    decide
  | nil =>
    cases marks with
    | nil =>
      obtain rfl := Option.some.inj head
      exact no_name
    | cons m marks =>
      obtain rfl := Option.some.inj head
      exact only m (List.mem_cons_self ..)

theorem terminated_print (no_key : Attributes.isKeyChar n = false) (other : n ∉ [' ', '=', '"'])
    (only : ∀ c ∈ marks, c ≠ '"' ∧ c ≠ n) :
    Terminated (n :: needle) false (Attribute.printAll as ++ marks ++ (n :: needle ++ rest))
      (Attribute.printAll as ++ marks) rest := by
  have here : Terminated (n :: needle) false (n :: needle ++ rest) [] rest := terminated_here.2 ⟨rfl, rfl⟩
  have marked := terminated_printAll no_key other as (terminated_append only here)
  rwa [List.append_nil, ← List.append_assoc] at marked

end Body

end Tag

/-! ## A written tag is read back -/

namespace Form

/-- **The grammar has a written tag where it is written**, whatever is behind it. -/
theorem written_print (f : Form) (rest : Text) : Tag.Written (f.print ++ rest) f.tag rest := by
  obtain ⟨name, shape, before, after, nonempty, is_name⟩ := f
  cases shape with
  | opening as self =>
    have only (c : Char) (mem : c ∈ Tag.mark '~' after ++ Tag.mark '/' self) : c = '~' ∨ c = '/' :=
      (List.mem_append.1 mem).imp Tag.mem_mark Tag.mem_mark
    have split : print ⟨name, .opening as self, before, after, nonempty, is_name⟩ ++ rest
        = Tag.opener ['<'] before ++ (name ++
          (Attribute.printAll as ++ (Tag.mark '~' after ++ Tag.mark '/' self) ++ (['>'] ++ rest))) := by
      simp [print]
    rw [split]
    refine .opening (Tag.called_print as [] rest nonempty is_name (by decide) fun c mem => ?_)
      (Tag.terminated_print as [] rest (by decide) (by decide) fun c mem => ?_)
      (Tag.marked_print as after self) (Tag.setOff_printAll as)
    · rcases only c mem with rfl | rfl <;> decide
    · rcases only c mem with rfl | rfl <;> decide
  | closing =>
    have split : print ⟨name, .closing, before, after, nonempty, is_name⟩ ++ rest
        = Tag.opener ['<', '/'] before ++ (name ++ ([] ++ Tag.mark '~' after ++ '>' :: rest)) := by
      simp [print]
    rw [split]
    refine .closing (Tag.called_print [] [] rest nonempty is_name (by decide) fun c mem => ?_) nofun
    obtain rfl := Tag.mem_mark mem
    decide
  | value as =>
    have split : print ⟨name, .value as, before, after, nonempty, is_name⟩ ++ rest
        = Tag.opener ['{', '{'] before ++ (name ++
          (Attribute.printAll as ++ Tag.mark '~' after ++ (['}', '}'] ++ rest))) := by
      simp [print]
    rw [split]
    refine .value (Tag.called_print as ['}'] rest nonempty is_name (by decide) fun c mem => ?_)
      (Tag.terminated_print as ['}'] rest (by decide) (by decide) fun c mem => ?_)
      (Tag.tilded_print as after) (Tag.setOff_printAll as)
    · obtain rfl := Tag.mem_mark mem
      decide
    · obtain rfl := Tag.mem_mark mem
      decide

/-- How a tag reads a form: its name, kind and marks, and its attributes as a map in which the last pair of a key
counts. -/
structure IsReadAs (f : Form) (t : Tag) : Prop where
  name : t.name = f.name
  shape : t.shape = match f.shape with
    | .opening _ self => .opening t.raw self
    | .closing => .closing
    | .value _ => .value t.raw
  stripBefore : t.stripBefore = f.stripBefore
  stripAfter : t.stripAfter = f.stripAfter
  get? : ∀ key, t.attributes.get? key = Attributes.lastValue? (f.attributes.map (·.pair)) key
  sorted : t.attributes.Sorted

theorem pairsOf_trim_print (as : List Attribute) :
    Attributes.pairsOf (trim (Attribute.printAll as)) = as.map (·.pair) := by
  rw [trim, Tag.trimEnd_printAll, Attributes.pairsOf_dropWhile_isSpace, Attributes.pairsOf_print]

theorem attributes_tag (f : Form) : f.tag.attributes = Attributes.ofPairs (f.attributes.map (·.pair)) := by
  obtain ⟨name, shape, before, after, nonempty, is_name⟩ := f
  cases shape with
  | opening as self | value as => exact congrArg Attributes.ofPairs (pairsOf_trim_print as)
  | closing => exact congrArg Attributes.ofPairs Attributes.pairsOf_nil

theorem isReadAs_tag (f : Form) : f.IsReadAs f.tag where
  name := rfl
  shape := by
    obtain ⟨name, shape, before, after, nonempty, is_name⟩ := f
    cases shape <;> rfl
  stripBefore := rfl
  stripAfter := rfl
  get? key := by rw [attributes_tag, Attributes.get?_ofPairs]
  sorted := by
    rw [attributes_tag]
    exact Attributes.sorted_ofPairs _

end Form

/-! ## Documents -/

/-- An element of a template: a text without `tpl:`, or a tag. -/
inductive Element where
  | text (t : Text) (nonempty : t ≠ []) (plain : ¬ "tpl:".toList <:+: t)
  | tag (f : Form)

namespace Element

def print : Element → Text
  | text t _ _ => t
  | tag f => f.print

def isText : Element → Bool
  | text .. => true
  | tag _ => false

def lexeme : Element → Lexeme
  | text t _ _ => ⟨.text t, t⟩
  | tag f => ⟨.tag f.tag, f.print⟩

end Element

/-- How a fragment reads an element, stripped in front if `lead` and at its end if `trail`. -/
def Element.IsReadAs (lead trail : Bool) : Element → Fragment → Prop
  | text t _ _, .text x => x = Token.strippedText lead trail t
  | tag f, .tag t => f.IsReadAs t
  | _, _ => False

/-- What a template can be written as: no two texts follow each other. -/
structure Document where
  elements : List Element
  apart : elements.IsChain fun p q => ¬ (p.isText ∧ q.isText)

namespace Document

def print (d : Document) : Text := d.elements.flatMap Element.print

def stripsLead (d : Document) (i : Nat) : Bool := 0 < i && d.elements[i - 1]?.any (·.lexeme.fragment.stripsBehind)

def stripsTrail (d : Document) (i : Nat) : Bool := d.elements[i + 1]?.any (·.lexeme.fragment.stripsFront)

end Document

/-! ## Between the elements -/

namespace Tag

def leads : List Text := openers.map Prod.fst

theorem Written.lead {t rest : Text} {tag : Tag} (written : Written t tag rest) : ∃ lead ∈ leads, lead <+: t := by
  obtain ⟨o, mem, behind⟩ := List.exists_of_findSome?_eq_some (scan?_eq_some_iff.2 written)
  obtain ⟨u, lead, -⟩ := Option.bind_eq_some_iff.1 behind
  exact ⟨o.1, List.mem_map_of_mem mem, u, (dropLead?_eq_some_iff.1 lead).symm⟩

/-- What can stand behind a text: nothing, or a tag. -/
def Opens (t : Text) : Prop := t = [] ∨ ['<'] <+: t ∨ ['{', '{'] <+: t

theorem opens_of_written {t rest : Text} {tag : Tag} (written : Written t tag rest) : Opens t := by
  cases written with
  | opening | closing => exact .inr (.inl ⟨_, rfl⟩)
  | value => exact .inr (.inr ⟨_, rfl⟩)

/-- Inside an opener nothing starts that a tag could open with. -/
theorem not_opens_append {lead c : Text} (mem : lead ∈ leads) (inside : c <:+ lead.tail) (nonempty : c ≠ []) (w : Text) :
    ¬ Opens (c ++ w) := by
  have ends : ∀ lead ∈ leads, ∀ c ∈ lead.tail.tails, c ≠ [] →
      c.head? ≠ some '<' ∧ c ≠ ['{'] ∧ ¬ ['{', '{'] <+: c := by decide
  obtain ⟨no_angle, no_brace, no_braces⟩ := ends lead mem c ((List.mem_tails ..).2 inside) nonempty
  cases c with
  | nil => exact absurd rfl nonempty
  | cons x c =>
    rintro (eq | angle | braces)
    · cases eq
    · obtain rfl := (List.cons_prefix_cons.1 angle).1
      exact no_angle rfl
    · obtain ⟨rfl, more⟩ := List.cons_prefix_cons.1 braces
      cases c with
      | nil => exact no_brace rfl
      | cons y c =>
        obtain ⟨rfl, -⟩ := List.cons_prefix_cons.1 more
        exact no_braces ⟨c, rfl⟩

/-- **No tag starts in a text without `tpl:`**, nor from its end into the tag behind it. -/
theorem scan?_of_plain {t u v rest : Text} {d : Char} (plain : ¬ "tpl:".toList <:+: t) (split : t = u ++ d :: v)
    (opens : Opens rest) : scan? (d :: v ++ rest) = none := by
  rw [Option.eq_none_iff_forall_ne_some]
  rintro ⟨tag, after⟩ found
  obtain ⟨lead, mem, w, whole⟩ := (scan?_eq_some_iff.1 found).lead
  have no_lead : ¬ lead <+: d :: v := by
    intro leads'
    have ends : ∀ lead ∈ leads, "tpl:".toList <:+ lead := by decide
    refine plain ((ends lead mem).isInfix.trans ?_)
    rw [split]
    exact leads'.isInfix.trans (List.suffix_append u _).isInfix
  rcases List.append_eq_append_iff.1 whole with ⟨a, eq, -⟩ | ⟨c, eq, behind⟩
  · exact no_lead ⟨a, eq.symm⟩
  · cases c with
    | nil => exact no_lead ⟨[], eq ▸ by simp⟩
    | cons x c =>
      have inside : x :: c <:+ lead.tail := ⟨v, by rw [eq]; rfl⟩
      rw [behind] at opens
      exact not_opens_append mem inside (List.cons_ne_nil x c) w opens

end Tag

namespace Document

theorem opens_print_tag (f : Form) (rest : Text) : Tag.Opens (f.print ++ rest) :=
  Tag.opens_of_written (f.written_print rest)

/-- **The lexemes of a written document are its elements.** -/
theorem lexemes_flatMap_print {ps : List Element} (apart : ps.IsChain fun p q => ¬ (p.isText ∧ q.isText)) :
    Token.lexemes (ps.flatMap Element.print) = ps.map Element.lexeme := by
  induction ps with
  | nil => exact Token.lexemes_nil
  | cons p ps ih =>
    have behind := ih apart.tail
    rw [List.flatMap_cons, List.map_cons, ← behind]
    cases p with
    | tag f => exact Token.lexemes_of_written (f.written_print _)
    | text t nonempty plain =>
      -- the next element is a tag, and neither cut nor opener gets from the text into it
      have next : Tag.Opens (ps.flatMap Element.print) ∧
          ∀ x slice ls, Token.lexemes (ps.flatMap Element.print) ≠ ⟨.text x, slice⟩ :: ls := by
        cases ps with
        | nil => exact ⟨.inl rfl, fun x slice ls => by simp⟩
        | cons q qs =>
          cases q with
          | text => exact absurd ⟨rfl, rfl⟩ (List.isChain_cons_cons.1 apart).1
          | tag f =>
            refine ⟨opens_print_tag f _, fun x slice ls eq => ?_⟩
            rw [behind] at eq
            cases eq
      cases t with
      | nil => exact absurd rfl nonempty
      | cons c t =>
        exact Token.lexemes_append_text (fun u d v split => Tag.scan?_of_plain plain split next.1) next.2

theorem map_fragment_place (d : Document) :
    (Token.place 0 (Token.lexemes d.print)).map (·.fragment) = d.elements.map (·.lexeme.fragment) := by
  rw [Token.fragments_place, print, lexemes_flatMap_print d.apart, List.map_map]
  rfl

end Document

theorem Element.isReadAs_settled (lead trail : Bool) (element : Element) :
    element.IsReadAs lead trail (element.lexeme.fragment.settled lead trail) := by
  cases element with
  | text => rfl
  | tag f => exact f.isReadAs_tag

/-- **Tokenizing undoes printing.** -/
theorem Document.tokenize_print (d : Document) :
    (Token.tokenize d.print).length = d.elements.length ∧
      ∀ (i : Nat) (element : Element), d.elements[i]? = some element → ∃ token, (Token.tokenize d.print)[i]? = some token ∧
        element.IsReadAs (d.stripsLead i) (d.stripsTrail i) token.fragment := by
  have fragments := d.map_fragment_place
  rw [Token.tokenize]
  generalize Token.place 0 (Token.lexemes d.print) = ts at fragments ⊢
  have at_index (i : Nat) : ts[i]?.map (·.fragment) = d.elements[i]?.map (·.lexeme.fragment) := by
    rw [← List.getElem?_map, ← List.getElem?_map, fragments]
  have any_at (p : Fragment → Bool) (i : Nat) :
      ts[i]?.any (fun t => p t.fragment) = d.elements[i]?.any fun q => p q.lexeme.fragment := by
    have mapped := congrArg (Option.any p) (at_index i)
    rwa [Option.any_map, Option.any_map] at mapped
  refine ⟨?_, fun i element found => ?_⟩
  · have lengths := congrArg List.length fragments
    rw [List.length_map, List.length_map] at lengths
    rw [Token.length_settle, lengths]
  · have here := at_index i
    rw [found, Option.map_some] at here
    obtain ⟨token, ht, eq⟩ := Option.map_eq_some_iff.1 here
    refine ⟨_, by rw [Token.getElem?_settle, ht, Option.map_some], ?_⟩
    have lead : (if i = 0 then false else ts[i - 1]?.any (·.fragment.stripsBehind)) = d.stripsLead i := by
      rw [any_at, stripsLead]
      cases i <;> rfl
    rw [any_at Fragment.stripsFront, lead, Token.between, eq]
    exact element.isReadAs_settled ..

/-- A text that ends in half an opener, a value with terminators, marks and a tag in it, a key given twice, and blanks
that the tag before them strips. -/
def exacting : Document where
  elements := [
    .text "a <".toList (by decide) (by decide),
    .tag ⟨['v'], .value [
      ⟨['k'], "\x7d\x7d > ~/ <tpl:x>".toList, by decide, by decide, by decide⟩,
      ⟨['k'], ['2'], by decide, by decide, by decide⟩], true, true, by decide, by decide⟩,
    .text " \n\x7b".toList (by decide) (by decide),
    .tag ⟨['w'], .opening [] true, false, true, by decide, by decide⟩]
  apart := by decide

theorem tokenize_exacting :
    exacting.print =
        "a <\x7b\x7b~tpl:v k=\"\x7d\x7d > ~/ <tpl:x>\" k=\"2\"~\x7d\x7d \n\x7b<tpl:w~/>".toList ∧
      (∃ tag start stop, (Token.tokenize exacting.print)[1]? = some ⟨.tag tag, start, stop⟩ ∧
        tag.stripAfter = true ∧ tag.attributes.get? ['k'] = some ['2']) ∧
      ∃ start stop, (Token.tokenize exacting.print)[2]? = some ⟨.text ['\x7b'], start, stop⟩ := by
  obtain ⟨-, read⟩ := exacting.tokenize_print
  refine ⟨by decide, ?_, ?_⟩
  · obtain ⟨⟨_ | tag, start, stop⟩, found, is_read⟩ := read 1 _ rfl
    · exact is_read.elim
    · exact ⟨tag, start, stop, found, is_read.stripAfter, is_read.get? ['k']⟩
  · obtain ⟨⟨x | _, start, stop⟩, found, is_read⟩ := read 2 _ rfl
    · obtain rfl : x = ['\x7b'] := is_read
      exact ⟨start, stop, found⟩
    · exact is_read.elim

end TagTemplate
