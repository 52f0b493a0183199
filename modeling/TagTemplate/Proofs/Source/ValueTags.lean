/-
# Proofs.Source.ValueTags -- value tags in a source that is prepared

A value tag ends at the first `}}` outside double quotes, a region of the rendering language
at its first closer of any kind, quoted or not.  A value tag is written like a region, so
the tag's own opener starts one, and that one is left alone.  It may end inside the tag,
though, at a closer between quotes, and what stands in the tag behind it is searched on.

Whatever happens there stays within the tag: the tag ends in a closer, so every opener in
it is closed in it (`Shut`), and preparing a source prepares what is before the tag, the
tag and what is behind it apart (`stripSnippets_append`).  A tag in which all regions are
foreign reaches the scanner as it is.  If another region stands in it, the tag is damaged
(`eq_raw_of_written_prefix`): a region that is removed or wrapped does not come back from
what follows, except for `{% raw %}`, which a wrapped literal starts with.
-/
import TagTemplate.Proofs.Source.Remnants
import TagTemplate.Proofs.Token.Placement

namespace TagTemplate

set_option autoImplicit false

open Text

namespace Source

/-! ## Texts in which every region ends -/

/-- Behind every brace of a text stands a character, and if the two open a region, something behind them closes it. -/
def Shut (t : Text) : Prop := ∀ a b, t = a ++ '{' :: b → ∃ m u, b = m :: u ∧ (isOpenerMark m = true → ¬ Unclosed u)

theorem Shut.of_append {s t : Text} (shut : Shut (s ++ t)) : Shut t :=
  fun a b split => shut (s ++ a) b (by rw [split, List.append_assoc])

/-- A text that ends in a closer is shut. -/
theorem shut_of_closed (v : Text) : Shut (v ++ ['}', '}']) := by
  intro a b split
  rcases List.append_eq_append_iff.1 split with ⟨m, -, behind⟩ | ⟨m, rfl, behind⟩
  · have mem : '{' ∈ ['}', '}'] := behind ▸ List.mem_append_right _ (List.mem_cons_self ..)
    exact absurd mem (by decide)
  · rcases m with - | ⟨c, m⟩
    · cases behind
    · obtain ⟨rfl, rfl⟩ := List.cons.inj behind
      rcases m with - | ⟨c, u⟩
      · exact ⟨'}', ['}'], rfl, fun opener => nomatch opener⟩
      · exact ⟨c, u ++ ['}', '}'], rfl, fun _ unclosed => nomatch unclosed u '}' [] rfl⟩

/-- Where no region starts in a shut text, none starts there if more text follows. -/
theorem snippet?_append_of_shut {c : Char} {t : Text} (nothing : snippet? (c :: t) = none) (shut : Shut (c :: t))
    (more : Text) : snippet? (c :: (t ++ more)) = none := by
  by_cases brace : c = '{'
  · subst brace
    obtain ⟨m, u, rfl, closed⟩ := shut [] t rfl
    rw [snippet?] at nothing
    rw [List.cons_append, snippet?]
    split at nothing
    · rename_i opener
      rw [Option.map_eq_none_iff, close?_eq_none_iff] at nothing
      exact absurd nothing (closed opener)
    · rename_i literal
      rw [if_neg literal]
  · exact snippet?_of_ne brace _

/-- **A shut text is stripped by itself.** -/
theorem stripSnippets_append {t : Text} (shut : Shut t) (passLiterals : Bool) (more : Text) :
    stripSnippets passLiterals (t ++ more) = stripSnippets passLiterals t ++ stripSnippets passLiterals more := by
  fun_induction stripSnippets passLiterals t with
  | case1 t s rest found shorter ih =>
    rw [(snippet?_eq_some_iff.1 found).1] at shut
    rw [stripSnippets_of_snippet? (snippet?_append found more), ih shut.of_append, List.append_assoc]
  | case2 => rfl
  | case3 c t nothing ih =>
    have behind : Shut t := shut.of_append (s := [c])
    rw [List.cons_append, stripSnippets_cons (snippet?_append_of_shut nothing shut more), ih behind]
    rfl

theorem shut_of_not_mem {t : Text} (absent : '{' ∉ t) : Shut t := by
  rintro a b rfl
  exact absurd (List.mem_append_right _ (List.mem_cons_self ..)) absent

theorem stripSnippets_of_not_mem {t : Text} (absent : '{' ∉ t) (passLiterals : Bool) :
    stripSnippets passLiterals t = t := by
  induction t with
  | nil => exact stripSnippets_nil passLiterals
  | cons c t ih =>
    have ne : c ≠ '{' := fun eq => absent (eq ▸ List.mem_cons_self ..)
    rw [stripSnippets_cons (snippet?_of_ne ne t), ih fun mem => absent (List.mem_cons_of_mem _ mem)]

/-! ## Texts that are left alone -/

theorem replacement_of_isForeign {s : Snippet} (foreign : s.isForeign = true) (passLiterals : Bool) :
    s.replacement passLiterals = s.written := if_pos foreign

/-- Where all regions are foreign, nothing is stripped. -/
theorem stripSnippets_of_isForeign {t : Text} (foreign : ∀ s ∈ regions t, s.isForeign = true) (passLiterals : Bool) :
    stripSnippets passLiterals t = t := by
  fun_induction stripSnippets passLiterals t with
  | case1 t s rest found shorter ih =>
    rw [regions_of_snippet? found] at foreign
    rw [replacement_of_isForeign (foreign s (List.mem_cons_self ..)), ih fun r mem => foreign r (List.mem_cons_of_mem _ mem)]
    exact (snippet?_eq_some_iff.1 found).1.symm
  | case2 => rfl
  | case3 c t nothing ih =>
    rw [regions_cons nothing] at foreign
    rw [ih foreign]

def rawRegion : Snippet := ⟨'%', " raw ".toList, '%'⟩

/-- Two regions at the front of one text are one. -/
theorem eq_of_written_prefix {s r : Snippet} {t u : Text} (region : snippet? (s.written ++ t) = some (s, t))
    (region' : snippet? (r.written ++ u) = some (r, u)) (lead : s.written <+: r.written ++ u) : s = r := by
  obtain ⟨t', eq⟩ := lead
  have here := snippet?_written region t'
  rw [eq, region'] at here
  exact (Prod.mk.inj (Option.some.inj here)).1.symm

/-- A region that is not foreign does not come back in front of a stripped text, unless it is `{% raw %}`. -/
theorem eq_raw_of_written_prefix {s : Snippet} {t u : Text} {passLiterals : Bool}
    (region : snippet? (s.written ++ t) = some (s, t)) (known : s.isForeign = false)
    (lead : s.written <+: stripSnippets passLiterals u) : passLiterals = true ∧ s = rawRegion := by
  fun_induction stripSnippets passLiterals u with
  | case1 u r rest found shorter ih =>
    have region' := snippet?_written found
    unfold Snippet.replacement at lead
    split at lead
    · rename_i foreign
      obtain rfl := eq_of_written_prefix region (region' _) lead
      rw [known] at foreign
      cases foreign
    · split at lead
      · exact ih lead
      · rename_i literal
        have raw (more : Text) : snippet? (rawRegion.written ++ more) = some (rawRegion, more) := rfl
        rw [List.append_assoc, List.append_assoc] at lead
        refine ⟨?_, eq_of_written_prefix region (raw _) lead⟩
        rw [Bool.or_eq_true, not_or, Bool.not_eq_true, Bool.not_eq_true, Bool.not_eq_false'] at literal
        exact literal.2
  | case2 => exact absurd (List.eq_nil_of_prefix_nil lead) (List.cons_ne_nil _ _)
  | case3 c u nothing ih =>
    -- the brace would be one that nothing behind it closes
    obtain ⟨more, eq⟩ := lead
    obtain ⟨-, opener, closer, -⟩ := snippet?_eq_some_iff.1 region
    obtain ⟨rfl, behind⟩ := List.cons.inj (show '{' :: (s.opener :: (s.body ++ [s.closer, '}'] ++ more)) = _ by
      rw [← eq]
      simp [Snippet.written])
    have unclosed := unclosed_of_kept nothing opener behind.symm
    rw [unclosed s.body s.closer more (by simp)] at closer
    cases closer

/-- A shut text that comes out of stripping as it went in has foreign regions only, or `{% raw %}` among them. -/
theorem isForeign_of_prefix {t : Text} (shut : Shut t) {passLiterals : Bool} {more : Text}
    (kept : t <+: stripSnippets passLiterals (t ++ more)) :
    (∀ s ∈ regions t, s.isForeign = true) ∨ passLiterals = true ∧ rawRegion ∈ regions t := by
  fun_induction regions t with
  | case1 t s rest found shorter ih =>
    have split := (snippet?_eq_some_iff.1 found).1
    cases known : s.isForeign with
    | false =>
      have lead : s.written <+: stripSnippets passLiterals (t ++ more) := (split ▸ List.prefix_append ..).trans kept
      obtain ⟨passes, rfl⟩ := eq_raw_of_written_prefix (snippet?_written found []) known lead
      exact .inr ⟨passes, List.mem_cons_self ..⟩
    | true =>
      have kept' : rest <+: stripSnippets passLiterals (rest ++ more) := by
        rw [stripSnippets_of_snippet? (snippet?_append found more), replacement_of_isForeign known, split,
          List.prefix_append_right_inj] at kept
        exact kept
      refine (ih (split ▸ shut).of_append kept').imp (fun foreign r mem => ?_) (.imp_right (List.mem_cons_of_mem _))
      rcases List.mem_cons.1 mem with rfl | mem
      · exact known
      · exact foreign r mem
  | case2 => exact .inl fun _ mem => absurd mem List.not_mem_nil
  | case3 c t nothing ih =>
    have kept' : t <+: stripSnippets passLiterals (t ++ more) := by
      rw [List.cons_append, stripSnippets_cons (snippet?_append_of_shut nothing shut more)] at kept
      exact (List.cons_prefix_cons.1 kept).2
    exact ih (shut.of_append (s := [c])) kept'

end Source

/-! ## The tag and what is behind it -/

namespace Tag

variable {tag : Tag} {raw : Text}

/-- A value tag ends with its terminator. -/
theorem exists_of_written_value {w post : Text} (written : Written (w ++ post) tag post) (value : tag.shape = .value raw) :
    ∃ v, w = v ++ ['}', '}'] := by
  generalize whole : w ++ post = t at written
  cases written with
  | opening | closing => cases value
  | @value name t body kept _ before after called terminated tilded set_off =>
    refine ⟨opener ['{', '{'] before ++ (name ++ body), List.append_cancel_right (whole.trans ?_)⟩
    rw [terminated.split]
    simp only [List.append_assoc]

end Tag

namespace Token

/-- Behind a text without braces and angle brackets, a tag that is written is a token. -/
theorem mem_tokenize_of_written {pre w rest : Text} {tag : Tag} (plain : ∀ c ∈ pre, c ≠ '{' ∧ c ≠ '<')
    (written : Tag.Written (w ++ rest) tag rest) :
    ⟨.tag tag, size pre, size (pre ++ w)⟩ ∈ tokenize (pre ++ w ++ rest) := by
  have clear : Clear (tokenize (pre ++ (w ++ rest))) (size pre) := by
    refine clear_iff.2 fun tag start stop mem before => ?_
    obtain ⟨v, u, after, whole, start_eq, written, -⟩ := written_of_mem_place _ (tag_mem_settle_iff.1 mem)
    -- a tag in front would start with a character of the text there
    obtain ⟨m, rfl, rfl⟩ := exists_between whole.symm (by omega)
    cases m with
    | nil =>
      rw [List.append_nil] at before
      omega
    | cons c m =>
      have other := plain c (List.mem_append_right _ (List.mem_cons_self ..))
      rcases Tag.head?_of_written written with head | head
      · exact absurd (Option.some.inj head) other.1
      · exact absurd (Option.some.inj head) other.2
  rw [List.append_assoc]
  refine ((tag_mem_tokenize_iff clear).1 _ _).2 ⟨rest, written, ?_⟩
  simp only [size_append]
  omega

/-- A tag token between two texts is written there. -/
theorem written_of_mem_tokenize {pre w post : Text} {tag : Tag}
    (mem : ⟨.tag tag, size pre, size (pre ++ w)⟩ ∈ tokenize (pre ++ w ++ post)) : Tag.Written (w ++ post) tag post := by
  obtain ⟨v, u, after, whole, start, written, stop⟩ := written_of_mem_place _ (tag_mem_settle_iff.1 mem)
  rw [List.append_assoc] at whole
  obtain rfl := eq_of_size_eq whole (start.trans (Nat.zero_add _))
  obtain ⟨slice, eq⟩ := written.suffix
  have sizes := congrArg size eq
  simp only [size_append] at sizes stop
  rwa [eq_of_size_eq eq (by omega)] at written

end Token

/-! ## Prepared sources -/

namespace Source

/-- Preparing a source with a shut part behind a text without braces prepares that part, and what follows it, apart. -/
theorem prepare_append {pre w post : Text} (options : Options) (plain : '{' ∉ pre) (shut : Shut w)
    (noComment : ¬ commentOpener <:+: pre ++ w ++ post) :
    prepare options (pre ++ w ++ post) = pre ++ prepare options w ++ prepare options post := by
  have free_tag : ¬ commentOpener <:+: w := fun opens => noComment (opens.trans ⟨pre, post, rfl⟩)
  have free_behind : ¬ commentOpener <:+: post := fun opens => noComment (opens.trans (List.suffix_append ..).isInfix)
  unfold prepare
  simp only [removeComments_of_free noComment, removeComments_of_free free_tag, removeComments_of_free free_behind]
  split
  · rw [List.append_assoc, stripSnippets_append (shut_of_not_mem plain), stripSnippets_of_not_mem plain,
      stripSnippets_append shut, List.append_assoc]
  · rfl

/-- **A value tag reaches the scanner unless a region of the rendering language ends inside it.**  Preparing a source
prepares the tag apart from what is before and behind it.  If the tag is left as it is, the scanner reads the same tag at
the same place.  It is left as it is if nothing is stripped or all regions in it are foreign; and if it is left so while
regions are stripped, then all regions in it are foreign, or literals are passed and one is `{% raw %}`. -/
theorem prepare_value_tag {pre w post raw : Text} {tag : Tag} (options : Options)
    (plain : ∀ c ∈ pre, c ≠ '{' ∧ c ≠ '<') (noComment : ¬ commentOpener <:+: pre ++ w ++ post)
    (value : tag.shape = .value raw)
    (token : ⟨.tag tag, size pre, size (pre ++ w)⟩ ∈ Token.tokenize (pre ++ w ++ post)) :
    prepare options (pre ++ w ++ post) = pre ++ prepare options w ++ prepare options post ∧
    (pre ++ w <+: prepare options (pre ++ w ++ post) →
      ⟨.tag tag, size pre, size (pre ++ w)⟩ ∈ Token.tokenize (prepare options (pre ++ w ++ post))) ∧
    (options.stripSnippets = false ∨ (∀ s ∈ regions w, s.isForeign = true) →
      pre ++ w <+: prepare options (pre ++ w ++ post)) ∧
    (options.stripSnippets = true → pre ++ w <+: prepare options (pre ++ w ++ post) →
      (∀ s ∈ regions w, s.isForeign = true) ∨ options.passLiterals = true ∧ rawRegion ∈ regions w) := by
  have written := Token.written_of_mem_tokenize token
  obtain ⟨v, closed⟩ := Tag.exists_of_written_value written value
  have shut : Shut w := closed ▸ shut_of_closed v
  have braceless : '{' ∉ pre := fun mem => (plain _ mem).1 rfl
  have parts := prepare_append options braceless shut noComment
  refine ⟨parts, ?_, ?_, ?_⟩
  · rintro ⟨rest, eq⟩
    rw [← eq]
    exact Token.mem_tokenize_of_written plain (written.retarget rest)
  · intro unstripped
    have same : prepare options w = w := by
      have free : ¬ commentOpener <:+: w := fun opens => noComment (opens.trans ⟨pre, post, rfl⟩)
      unfold prepare
      rw [removeComments_of_free free]
      rcases unstripped with off | foreign
      · simp [off]
      · simp [stripSnippets_of_isForeign foreign]
    rw [parts, same]
    exact List.prefix_append ..
  · intro strips kept
    have stripped : prepare options (pre ++ w ++ post) = pre ++ stripSnippets options.passLiterals (w ++ post) := by
      unfold prepare
      rw [removeComments_of_free noComment, if_pos strips, List.append_assoc,
        stripSnippets_append (shut_of_not_mem braceless), stripSnippets_of_not_mem braceless]
    rw [stripped, List.prefix_append_right_inj] at kept
    exact isForeign_of_prefix shut kept

/-- A tag with a closer of another kind and its own terminator between quotes, in front of a region that goes. -/
theorem prepare_value_tag_with_quoted_closers :
    let w := "\x7b\x7b~tpl:a b=\"%\x7d c \x7d\x7d\" \x7d\x7d".toList
    let tag : Tag := ⟨"a".toList, .value "b=\"%\x7d c \x7d\x7d\"".toList, true, false⟩
    let source := "x".toList ++ w ++ "y\x7b\x7b z \x7d\x7d".toList
    (∀ c ∈ "x".toList, c ≠ '{' ∧ c ≠ '<') ∧ ¬ commentOpener <:+: source ∧
      ⟨.tag tag, size "x".toList, size ("x".toList ++ w)⟩ ∈ Token.tokenize source ∧
      "x".toList ++ w <+: prepare ⟨true, true⟩ source ∧
      ⟨.tag tag, size "x".toList, size ("x".toList ++ w)⟩ ∈ Token.tokenize (prepare ⟨true, true⟩ source) := by
  intro w tag source
  have plain : ∀ c ∈ "x".toList, c ≠ '{' ∧ c ≠ '<' := by simp
  have noComment : ¬ commentOpener <:+: source := by decide +kernel
  have token : ⟨.tag tag, size "x".toList, size ("x".toList ++ w)⟩ ∈ Token.tokenize source := by decide +kernel
  obtain ⟨-, reaches, kept, -⟩ := prepare_value_tag ⟨true, true⟩ plain noComment rfl token
  have foreign : ∀ s ∈ regions w, s.isForeign = true := by decide +kernel
  exact ⟨plain, noComment, token, kept (.inr foreign), reaches (kept (.inr foreign))⟩

/-- The tag's own terminator between quotes ends a region, and what is between it and the end of the tag is stripped. -/
theorem prepare_cuts_quoted_region :
    let w := "\x7b\x7btpl:a b=\"\x7d\x7d\x7b\x7b x \x7d\x7d\"\x7d\x7d".toList
    let tag : Tag := ⟨"a".toList, .value "b=\"\x7d\x7d\x7b\x7b x \x7d\x7d\"".toList, false, false⟩
    ¬ commentOpener <:+: [] ++ w ++ [] ∧ ⟨.tag tag, size [], size ([] ++ w)⟩ ∈ Token.tokenize ([] ++ w ++ []) ∧
      prepare ⟨true, true⟩ ([] ++ w ++ []) = "\x7b\x7btpl:a b=\"\x7d\x7d\"\x7d\x7d".toList ∧
      ¬ [] ++ w <+: prepare ⟨true, true⟩ ([] ++ w ++ []) := by
  decide +kernel

end Source

end TagTemplate
