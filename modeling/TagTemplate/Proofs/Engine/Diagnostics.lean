/-
# Proofs.Engine.Diagnostics -- diagnostics point at tags

The place of a diagnostic is a byte offset into the prepared text of its file, and it
goes a long way before it is reported: the lexer counts it, strip modifiers leave it
alone, the node of an opening tag keeps it, and a report takes it from there or from a
closing tag.  Two invariants of the builder carry it: every node that has a tag stands
where an opening tag of that name was read, and the line and column of every report are
those of its offset (`Builder.Aimed`).  Which reports there are is known already: for
each block that was not closed one at its place, and one for each closing tag that
closes nothing.

In the text of the file, the tag that is reported stands at the offset
(`Diagnostic.PointsInto`), and as long as the file and the options stay as they are,
that text is the one a report shows (`diagnostics_point_at_tags`).
-/
import TagTemplate.Proofs.Engine
import TagTemplate.Proofs.Position
import TagTemplate.Proofs.Tree.Locality
import TagTemplate.Proofs.Tree.Nesting

namespace TagTemplate

set_option autoImplicit false

open Text

/-! ## Tokens and what is built from them -/

/-- A token opens a block of a name, closed at once or not. -/
def Token.Opens (t : Token) (name : Text) : Prop :=
  ∃ tag raw selfClosing, t.fragment = .tag tag ∧ tag.shape = .opening raw selfClosing ∧ tag.name = name

/-- A diagnostic is about a token: an opening tag that is not closed, or a closing tag that closes nothing. -/
def Diagnostic.About (d : Diagnostic) (t : Token) : Prop :=
  t.start = d.offset ∧
    match d.fault with
    | .missingClosingTag => t.Opens d.tag
    | .unexpectedClosingTag => t.closes? = some d.tag

theorem Tree.place_append_new {t : Tree} {parent : NodeId} (inside : parent < t.size) (kind : NodeKind) (offset : Nat) :
    (t.append parent kind offset).place t.size = (kind.tag?.getD [], offset) := by
  rw [place, tag?, kind?_append inside, if_pos rfl, node?_append inside, if_pos rfl]
  rfl

theorem Tree.exists_tag_of_isUnclosed {t : Tree} {id : NodeId} (unclosed : t.isUnclosed id = true) :
    ∃ name, t.tag? id = some name := by
  obtain ⟨kind, found, is_unclosed⟩ := (Option.any_eq_true ..).1 unclosed
  rw [tag?, found, Option.bind_some]
  cases kind with
  | block tag attributes state => exact ⟨tag, rfl⟩
  | definition name attributes state => exact ⟨definitionTag, rfl⟩
  | _ => cases is_unclosed

namespace Builder

/-- Nodes with a tag stand where blocks were opened, and every report has the position of its offset. -/
structure Aimed (opened : Text × Nat → Prop) (text : Text) (b : Builder) : Prop where
  source : b.source = text
  node : ∀ id name, b.tree.tag? id = some name → opened (b.tree.place id)
  position : ∀ d ∈ b.diagnostics, d.position = Position.ofOffset text d.offset

variable {opened : Text × Nat → Prop} {source : Text} {b : Builder}

theorem aimed_start (opened : Text × Nat → Prop) (source : Text) : Aimed opened source (start source {} {}) where
  source := rfl
  node id name tag := by
    change (Tree.addRoot {}).tag? id = _ at tag
    rw [Tree.tag?, Tree.kind?_addRoot] at tag
    split at tag <;> cases tag
  position _ mem := nomatch mem

theorem aimed_add (sound : b.Sound) (aimed : Aimed opened source b) {kind : NodeKind} {offset : Nat}
    (here : ∀ name, kind.tag? = some name → opened (name, offset)) : Aimed opened source (b.add kind offset) := by
  have inside := inside_current sound
  refine ⟨aimed.source, fun id name tag => ?_, aimed.position⟩
  show opened ((b.tree.append b.current kind offset).place id)
  change (b.tree.append b.current kind offset).tag? id = some name at tag
  rcases Nat.lt_trichotomy id b.tree.size with lt | rfl | gt
  · rw [tag?_append_of_lt inside kind offset lt] at tag
    rw [Tree.place_append inside kind offset lt]
    exact aimed.node id name tag
  · rw [Tree.tag?, Tree.kind?_append inside, if_pos rfl, Option.bind_some] at tag
    rw [Tree.place_append_new inside, tag]
    exact here name tag
  · have beyond : (b.tree.append b.current kind offset).size ≤ id := by
      rw [Tree.size_append]
      exact gt
    rw [Tree.tag?, Tree.kind?_of_size_le beyond] at tag
    cases tag

theorem aimed_report (aimed : Aimed opened source b) (fault : Fault) (tag : Text) (offset : Nat) :
    Aimed opened source (b.report fault tag offset) := by
  refine ⟨aimed.source, aimed.node, fun d mem => ?_⟩
  rcases List.mem_append.1 mem with mem | mem
  · exact aimed.position d mem
  · rw [List.mem_singleton.1 mem, aimed.source]

theorem aimed_reportMissing (aimed : Aimed opened source b) (id : NodeId) : Aimed opened source (b.reportMissing id) :=
  aimed_report (b := b.note _) ⟨aimed.source, aimed.node, aimed.position⟩ _ _ _

theorem aimed_abandon (aimed : Aimed opened source b) (id : NodeId) : Aimed opened source (b.abandon id) := by
  have given_up : Aimed opened source { b with tree := b.tree.setState id .abandoned } := by
    refine ⟨aimed.source, fun i name tag => ?_, aimed.position⟩
    show opened ((b.tree.setState id .abandoned).place i)
    rw [Tree.place_setState]
    exact aimed.node i name ((tag?_setState ..).symm.trans tag)
  exact aimed_reportMissing given_up id

theorem aimed_foldl {step : Builder → NodeId → Builder}
    (each : ∀ {b : Builder}, Aimed opened source b → ∀ id, Aimed opened source (step b id)) (ids : List NodeId) :
    ∀ b : Builder, Aimed opened source b → Aimed opened source (ids.foldl step b) := by
  induction ids with
  | nil => exact fun _ aimed => aimed
  | cons id ids ih => exact fun b aimed => ih (step b id) (each aimed id)

theorem source_close (b : Builder) (id : NodeId) : (b.close id).source = b.source := by
  unfold close
  dsimp only
  split <;> rfl

theorem aimed_close (aimed : Aimed opened source b) (id : NodeId) : Aimed opened source (b.close id) := by
  refine ⟨(source_close b id).trans aimed.source, fun i name tag => ?_, fun d mem => ?_⟩
  · rw [place_close]
    exact aimed.node i name (((frame_close b id).tag i).symm.trans tag)
  · rw [diagnostics_close] at mem
    exact aimed.position d mem

theorem aimed_openBlock (sound : b.Sound) (aimed : Aimed opened source b) {tag : Tag} {offset : Nat}
    (here : opened (tag.name, offset)) (selfClosing : Bool) :
    Aimed opened source (b.openBlock tag selfClosing offset) := by
  have added : Aimed opened source (b.add (blockKind tag) offset) := by
    refine aimed_add sound aimed fun name named => ?_
    rw [(blockKind_opens tag).2] at named
    exact Option.some.inj named ▸ here
  cases selfClosing with
  | true => exact aimed_close added _
  | false => exact ⟨added.source, added.node, added.position⟩

theorem aimed_closeBlock (sound : b.Sound) (aimed : Aimed opened source b) (name : Text) (offset : Nat) :
    Aimed opened source (b.closeBlock name offset) := by
  rcases closeBlock_cases sound name offset with eq | ⟨inner, matched, outer, -, -, -, -, eq⟩
  · rw [eq]
    exact aimed_report (b := b.note _) ⟨aimed.source, aimed.node, aimed.position⟩ _ _ _
  · rw [eq]
    have closed := aimed_close (aimed_foldl aimed_abandon inner b aimed) matched
    exact ⟨closed.source, closed.node, closed.position⟩

/-- **Every token keeps the aim**, if the place of each block that it opens counts as one. -/
theorem aimed_push (sound : b.Sound) (aimed : Aimed opened source b) {t : Token}
    (here : ∀ name, t.Opens name → opened (name, t.start)) : Aimed opened source (b.push t) := by
  have pushed := pushed_push b t
  generalize b.push t = b' at pushed ⊢
  cases pushed with
  | leaf settled _ _ =>
    refine aimed_add sound aimed fun name tag => ?_
    rw [NodeKind.tag?_of_settled settled] at tag
    cases tag
  | extending _ => exact ⟨aimed.source, aimed.node, aimed.position⟩
  | opening fragment shape => exact aimed_openBlock sound aimed (here _ ⟨_, _, _, fragment, shape, rfl⟩) _
  | closing _ _ => exact aimed_closeBlock sound aimed _ _

theorem aimed_foldl_push (tokens : List Token) : ∀ b : Builder, b.Sound → Aimed opened source b →
    (∀ t ∈ tokens, ∀ name, t.Opens name → opened (name, t.start)) → Aimed opened source (tokens.foldl push b) := by
  induction tokens with
  | nil => exact fun _ _ aimed _ => aimed
  | cons t tokens ih =>
    intro b sound aimed here
    have pushed := aimed_push sound aimed (here t (List.mem_cons_self ..))
    exact ih (b.push t) (sound_push sound t) pushed fun u mem => here u (List.mem_cons_of_mem _ mem)

theorem exists_token_of_mem_strays (tokens : List Token) {name : Text} {offset : Nat} :
    ∀ b : Builder, (name, offset) ∈ b.strays tokens → ∃ t ∈ tokens, t.start = offset ∧ t.closes? = some name := by
  induction tokens with
  | nil => exact fun b mem => nomatch mem
  | cons t tokens ih =>
    intro b mem
    rcases List.mem_append.1 mem with here | later
    · obtain ⟨name', closes, stray⟩ := Option.bind_eq_some_iff.1 (Option.mem_toList.1 here)
      split at stray
      · cases stray
      · cases stray
        exact ⟨t, List.mem_cons_self .., rfl, closes⟩
    · obtain ⟨u, mem, about⟩ := ih (b.push t) later
      exact ⟨u, List.mem_cons_of_mem _ mem, about⟩

end Builder

open Diagnostic in
/-- **Every diagnostic is about a token**, and its position is that of its offset. -/
theorem Tree.about_of_mem_diagnostics (tokens : List Token) (source : Text) {d : Diagnostic}
    (mem : d ∈ (Tree.build tokens source {} {}).diagnostics) :
    d.position = Position.ofOffset source d.offset ∧ ∃ t ∈ tokens, d.About t := by
  have aimed : Builder.Aimed (fun p => ∃ t ∈ tokens, t.start = p.2 ∧ t.Opens p.1) source
      (Tree.build tokens source {} {}) := by
    refine Builder.aimed_foldl Builder.aimed_reportMissing _ _ (Builder.aimed_foldl_push tokens _
      (Builder.sound_start source Chain.gathered_empty) (Builder.aimed_start _ source) fun t mem name opens => ?_)
    exact ⟨t, mem, rfl, opens⟩
  refine ⟨aimed.position d mem, ?_⟩
  cases fault : d.fault with
  | missingClosingTag =>
    obtain ⟨given, places, perm⟩ := reportedAt_build tokens source Chain.gathered_empty ⟨[], rfl, .refl _⟩
    have listed : (d.tag, d.offset) ∈ missingPlaces (Tree.build tokens source {} {}).diagnostics :=
      List.mem_map_of_mem (List.mem_filter.2 ⟨mem, by rw [fault]; rfl⟩)
    rw [List.map_nil, List.nil_append] at places
    rw [places] at listed
    -- The report was taken from a node, which has a tag because it is a block.
    obtain ⟨id, id_mem, place⟩ := List.mem_map.1 listed
    have unclosed := (mem_unclosed_iff _ id).1 (perm.subset id_mem)
    obtain ⟨name, tag⟩ := exists_tag_of_isUnclosed unclosed
    obtain ⟨t, t_mem, start, opens⟩ := aimed.node id name tag
    rw [place] at start opens
    exact ⟨t, t_mem, start, by rw [fault]; exact opens⟩
  | unexpectedClosingTag =>
    have listed : (d.tag, d.offset) ∈ unexpectedPlaces (Tree.build tokens source {} {}).diagnostics :=
      List.mem_map_of_mem (List.mem_filter.2 ⟨mem, by rw [fault]; rfl⟩)
    have strays := Builder.unexpectedPlaces_foldl_push tokens _ [] (Builder.nests_start source)
    rw [Tree.build, Builder.unexpectedPlaces_finish, strays] at listed
    obtain ⟨t, t_mem, start, closes⟩ := Builder.exists_token_of_mem_strays tokens _ listed
    exact ⟨t, t_mem, start, by rw [fault]; exact closes⟩

/-! ## The text of a file -/

def Fault.openers : Fault → List Text
  | .missingClosingTag => ["<tpl:".toList, "<~tpl:".toList]
  | .unexpectedClosingTag => ["</tpl:".toList, "</~tpl:".toList]

/-- The tag that a diagnostic reports stands in a text at its offset, with that name and no longer one; and its
position is the one behind the text in front. -/
def Diagnostic.PointsInto (d : Diagnostic) (text : Text) : Prop :=
  ∃ before opener rest, text = before ++ opener ++ d.tag ++ rest ∧ opener ∈ d.fault.openers ∧ Tag.Called d.tag rest ∧
    d.offset = size before ∧ d.position.After before

namespace Tag

theorem exists_of_written_opening {t rest : Text} {tag : Tag} (written : Written t tag rest) {raw : Text}
    {selfClosing : Bool} (shape : tag.shape = .opening raw selfClosing) :
    ∃ opener u, t = opener ++ tag.name ++ u ∧ opener ∈ Fault.openers .missingClosingTag ∧ Called tag.name u := by
  cases written with
  | @opening name u _ _ _ before _ _ called =>
    refine ⟨opener ['<'] before, u, (List.append_assoc ..).symm, ?_, called⟩
    cases before <;> decide
  | closing => cases shape
  | value => cases shape

theorem exists_of_written_closing {t rest : Text} {tag : Tag} (written : Written t tag rest)
    (shape : tag.shape = .closing) :
    ∃ opener u, t = opener ++ tag.name ++ u ∧ opener ∈ Fault.openers .unexpectedClosingTag ∧ Called tag.name u := by
  cases written with
  | opening => cases shape
  | @closing name blanks _ before after called =>
    refine ⟨opener ['<', '/'] before, _, (List.append_assoc ..).symm, ?_, called⟩
    cases before <;> decide
  | value => cases shape

end Tag

/-- A diagnostic about a token of a text points into the text. -/
theorem Diagnostic.pointsInto_of_about {d : Diagnostic} {text : Text} {t : Token} (mem : t ∈ Token.tokenize text)
    (about : d.About t) (position : d.position = Position.ofOffset text d.offset) : d.PointsInto text := by
  obtain ⟨fragment, start, stop⟩ := t
  obtain ⟨offset, named⟩ := about
  change start = d.offset at offset
  have reported : ∃ tag, fragment = .tag tag ∧ ∀ {u rest}, Tag.Written u tag rest →
      ∃ opener v, u = opener ++ d.tag ++ v ∧ opener ∈ d.fault.openers ∧ Tag.Called d.tag v := by
    cases fault : d.fault with
    | missingClosingTag =>
      rw [fault] at named
      obtain ⟨tag, raw, selfClosing, is_tag, shape, name⟩ := named
      refine ⟨tag, is_tag, fun written => ?_⟩
      rw [← name]
      exact Tag.exists_of_written_opening written shape
    | unexpectedClosingTag =>
      rw [fault] at named
      obtain ⟨tag, is_tag, shape, name⟩ := Token.exists_of_closes? named
      refine ⟨tag, is_tag, fun written => ?_⟩
      rw [← name]
      exact Tag.exists_of_written_closing written shape
  obtain ⟨tag, rfl, stands⟩ := reported
  -- Strip modifiers change no tag, so the token is one of the cut.
  obtain ⟨before, u, rest, rfl, at_before, written, -⟩ := Token.written_of_mem_place text (Token.tag_mem_settle_iff.1 mem)
  rw [Nat.zero_add] at at_before
  obtain ⟨opener, v, rfl, opens, called⟩ := stands written
  refine ⟨before, opener, v, ?_, opens, called, offset.symm.trans at_before, ?_⟩
  · simp only [List.append_assoc]
  · rw [position, ← offset, at_before]
    exact Position.after_ofOffset ..

/-! ## Reports of a compilation -/

theorem Settings.pointsInto_of_mem {s : Settings} {file : Option Location} {source : Text} {d : Diagnostic}
    (mem : d ∈ s.diagnosticsOf file source) : d.file = file ∧ d.PointsInto (Source.prepare s.options source) := by
  obtain ⟨d', mem', rfl⟩ := List.mem_map.1 mem
  obtain ⟨position, t, t_mem, about⟩ := Tree.about_of_mem_diagnostics _ _ mem'
  exact ⟨rfl, Diagnostic.pointsInto_of_about t_mem about position⟩

/-- Every diagnostic of a chain names one of its files and points into the text of that file. -/
theorem Chain.pointsInto_of_reads {s : Settings} {fs : FileSystem} {t : Template} {files : List Location} {chain : Chain}
    (reads : Chain.Reads s fs t files chain) {d : Diagnostic} (mem : d ∈ chain.diagnostics) :
    ∃ file ∈ files, ∃ source, d.file = some file ∧ fs.readAt file = .ok source ∧
      d.PointsInto (Source.prepare s.options source) := by
  obtain ⟨source, further, rfl, read, follows⟩ := reads.follows
  rw [Chain.diagnostics_of_follows follows] at mem
  rcases List.mem_append.1 mem with own | mem
  · obtain ⟨file, points⟩ := Settings.pointsInto_of_mem own
    exact ⟨t.file, List.mem_cons_self .., source, file, read, points⟩
  · obtain ⟨file, file_mem, mem⟩ := List.mem_flatMap.1 mem
    unfold Settings.diagnosticsAt at mem
    split at mem
    · rename_i text read
      obtain ⟨named, points⟩ := Settings.pointsInto_of_mem mem
      exact ⟨file, List.mem_cons_of_mem _ file_mem, text, named, read, points⟩
    · cases mem

variable {σ : Type}

/-- **Diagnostics point at the offending tag.**  Every diagnostic of a compilation names a file, and in the prepared
text of that file the tag it reports stands at its offset, line and column.  While the file and the options are as
they were, that text is what a report of the diagnostic shows. -/
theorem diagnostics_point_at_tags (e : Engine σ) (name : Text) (s : Session σ) {c : Compilation}
    (ok : ((e.compile name).run s).1 = .ok c) {d : Diagnostic} (mem : d ∈ c.diagnostics) :
    ∃ file source, d.file = some file ∧ s.files.readAt file = .ok source ∧
      d.PointsInto (Source.prepare e.settings.options source) ∧
      ∀ (e' : Engine σ) (fs : FileSystem), e'.settings.options = e.settings.options → fs.readAt file = .ok source →
        e'.reportSource? fs d = some (file, Source.prepare e.settings.options source) := by
  rw [Engine.run_compile] at ok
  split at ok
  · obtain ⟨files, chain, reads, rfl⟩ := e.compilationOf_eq_ok_iff.1 ok
    obtain ⟨file, -, source, named, read, points⟩ := Chain.pointsInto_of_reads reads mem
    refine ⟨file, source, named, read, points, fun e' fs options still => ?_⟩
    simp only [Engine.reportSource?, named, options, Option.bind_eq_bind, Option.bind_some, still, Except.toOption,
      Option.pure_def]
  · cases ok

/-- A template behind a comment and wide characters, whose opening tag strips the text in front, and the one it
extends, with a closing tag that closes nothing. -/
def wideStage : Session Unit where
  files := libraryOf [(['p'], "<!-- # c -->é
→ ".toList ++ extending ['r'] ++ " <~tpl:Card>é".toList),
    (['r'], "ü </~tpl:Nope>".toList)]
  handlers := ()

def widePage : Compilation where
  output := "ü".toList
  diagnostics := [⟨.missingClosingTag, "Card".toList, some [['p']], ⟨2, 30⟩, 34⟩,
    ⟨.unexpectedClosingTag, "Nope".toList, some [['r']], ⟨1, 3⟩, 3⟩]

theorem diagnostics_point_at_tags_widePage :
    ((libraryEngine.compile ['p']).run wideStage).1 = .ok widePage ∧
      ∀ d ∈ widePage.diagnostics, ∃ file source, d.file = some file ∧ wideStage.files.readAt file = .ok source ∧
        d.PointsInto (Source.prepare librarySettings.options source) := by
  have ok : ((libraryEngine.compile ['p']).run wideStage).1 = .ok widePage := by decide +kernel
  refine ⟨ok, fun d mem => ?_⟩
  obtain ⟨file, source, named, read, points, -⟩ := diagnostics_point_at_tags libraryEngine ['p'] wideStage ok mem
  exact ⟨file, source, named, read, points⟩

end TagTemplate
