/-
# Proofs.Compile.Joined -- the output of a file is joined from texts

What a file is compiled to is joined from the texts among its tokens and from what
handlers give, in the order that nesting and definitions ask for.  A property of texts
that is kept when texts are joined, and by the handlers, therefore holds of the output
if it holds of the texts among the tokens.

The last token needs no such property if it is a text.  It stands at the very end of the
output, or in a block that is never closed and prints nothing (`exists_output_build`).
-/
import TagTemplate.Proofs.Compile.Ignored
import TagTemplate.Proofs.Compile.Recovery
import TagTemplate.Proofs.Token
import TagTemplate.Proofs.Tree.Texts

namespace TagTemplate

set_option autoImplicit false

variable {σ : Type}

namespace Compiler

/-! ## The root of an arena -/

variable {p : Text → Prop} {c : Compiler σ}

/-- The nodes below the root, one apart, and the texts with the property. -/
def apartFrom (t : Tree) (last : NodeId) (p : Text → Prop) : Regime where
  reached id := (t.parent? id).isSome ∧ id ≠ last
  dispatched _ := True
  text := p

section Root

variable {s : CompileState σ} {path : List NodeId} {root last : NodeId} (g : c.tree.Gathered s.blocks path)
  (kind : c.tree.kind? root = some .root)
  (apart : ∀ outer, c.tree.parent? last = some outer → outer ≠ root → c.tree.isUnclosed outer = true)
include g kind apart

theorem sound_apartFrom (parent : c.tree.parent? root = none) (composes : Composes p c.registry)
    (texts : ∀ id x, id ≠ last → c.tree.kind? id = some (.text x) → p x) : (apartFrom c.tree last p).Sound c c where
  registry := rfl
  node _ _ := rfl
  child id reached settled child mem := by
    rw [g.children] at mem
    split at mem
    · cases mem
    · have held := (Tree.mem_offspring_iff ..).1 mem
      refine ⟨held ▸ rfl, ?_⟩
      -- A block around the node that is left out is unclosed, so its children are not compiled.
      rintro rfl
      have below : id ≠ root := by
        rintro rfl
        have above := reached.1
        rw [parent] at above
        cases above
      rw [apart id held below] at settled
      cases settled
  dispatch _ _ _ := trivial
  leaf id x reached eq := texts id x reached.2 eq
  composes := composes

omit g in
theorem kept_apartFrom (owned : c.tree.Owned s.blocks)
    (unused : ∀ name output, .compiled output ∉ (s.blocks.slot name).bodies) : (apartFrom c.tree last p).Kept s where
  pending name ids mem id id_mem := by
    obtain ⟨outer, held, closed⟩ := owned name ids mem id id_mem
    refine ⟨held ▸ rfl, ?_⟩
    rintro rfl
    have below : outer ≠ root := by
      rintro rfl
      rw [Tree.closedName?, kind] at closed
      cases closed
    have unclosed := apart outer held below
    rw [Tree.isUnclosed_of_closedName? closed] at unclosed
    cases unclosed
  compiled name output mem := absurd mem (unused name output)
  dispatched _ _ := trivial

omit g apart in
theorem run_compile_root : ∃ depth, compile c root s = concat (nodeWith .text c depth []) (c.tree.children root) s := by
  refine ⟨(s.blocks.pendingCount + 1) * (c.tree.size + 1), ?_⟩
  show nodeWith .text c (_ + 1) [] root s = _
  rw [nodeWith, kind]

/-- **The output of a root is a text with the property, and the text of its last child behind it.** -/
theorem exists_output (parent : c.tree.parent? root = none) (composes : Composes p c.registry)
    (texts : ∀ id x, id ≠ last → c.tree.kind? id = some (.text x) → p x) (owned : c.tree.Owned s.blocks)
    (unused : ∀ name output, .compiled output ∉ (s.blocks.slot name).bodies) {init tail : List NodeId}
    (split : c.tree.children root = init ++ tail) (fresh : last ∉ init)
    (ends : tail = [] ∨ tail = [last] ∧ ∃ w, c.tree.kind? last = some (.text w)) :
    ∃ out w, (compile c root s).1 = out ++ w ∧ p out ∧ (w = [] ∨ c.tree.kind? last = some (.text w)) := by
  have sound := sound_apartFrom g kind apart parent composes texts
  obtain ⟨depth, run⟩ := run_compile_root kind
  have reached : ∀ id ∈ init, (apartFrom c.tree last p).reached id := by
    intro id mem
    have child : id ∈ c.tree.children root := split ▸ List.mem_append_left _ mem
    rw [g.children] at child
    split at child
    · cases child
    · exact ⟨((Tree.mem_offspring_iff ..).1 child) ▸ rfl, fun same => fresh (same ▸ mem)⟩
  obtain ⟨-, holds, -⟩ := Regime.agrees_concat sound init
    (fun id mem => Regime.agrees_nodeWith sound .text depth [] id (reached id mem)) s
    (kept_apartFrom kind apart owned unused)
  have joined : (compile c root s).1 = (concat (nodeWith .text c depth []) init s).1 ++
      (concat (nodeWith .text c depth []) tail (concat (nodeWith .text c depth []) init s).2).1 := by
    rw [run, split, concat_append]
    rfl
  refine ⟨_, _, joined, holds, ?_⟩
  rcases ends with rfl | ⟨rfl, w, text⟩
  · exact .inl rfl
  · cases depth with
    | zero => exact .inl rfl
    | succ depth =>
      have here : nodeWith .text c (depth + 1) [] last = pure w := by
        rw [nodeWith, text]
      refine .inr (text.trans ?_)
      rw [concat, here]
      exact congrArg (some ∘ NodeKind.text) (List.append_nil w).symm

end Root

end Compiler

/-! ## A file -/

namespace Builder

variable {b : Builder} {p q : Text → Prop} {registry : Registry σ}

/-- The innermost open block is the root, or it is never closed. -/
theorem isUnclosed_current (reports : Reports [] b) (ne : b.current ≠ b.root) : b.tree.isUnclosed b.current = true := by
  obtain ⟨given, -, perm⟩ := reports
  refine (Tree.mem_unclosed_iff ..).1 (perm.subset (List.mem_append_right _ ?_))
  have here : b.openBlocks = b.current :: (b.tree.ancestors b.current).takeWhile (· != b.root) :=
    List.takeWhile_cons_of_pos (bne_iff_ne.2 ne)
  rw [here]
  exact List.mem_cons_self ..

section Output

variable (sound : b.Sound) (written : Written p q b) (owned : b.tree.Owned b.blocks)
  (composes : Compiler.Composes p registry) (handlers : σ)
include sound written owned composes

/-- The output of what was built so far. -/
theorem output_of_written : p (Compiler.compile ⟨b.tree, registry⟩ b.root { handlers, blocks := b.blocks }).1 := by
  let c : Compiler σ := ⟨b.tree, registry⟩
  have none : b.tree.parent? b.tree.size = none := Tree.parent?_of_size_le (Nat.le_refl _)
  have fresh : b.tree.size ∉ b.tree.children b.root := fun mem =>
    Nat.lt_irrefl _ (sound.gathered.ordered _ _ mem).2
  obtain ⟨out, w, eq, holds, last⟩ := Compiler.exists_output (c := c) (s := { handlers, blocks := b.blocks })
    sound.gathered written.root (fun outer held => nomatch none.symm.trans held) sound.root_parent composes
    (fun id x _ => written.text id x) owned written.unused (List.append_nil _).symm fresh (.inl rfl)
  rcases last with rfl | text
  · rw [List.append_nil] at eq
    exact eq ▸ holds
  · rw [Tree.kind?_of_size_le (Nat.le_refl _)] at text
    cases text

/-- The output once a last text is read. -/
theorem exists_output_add (reports : Reports [] b) (x : Text) (offset : Nat) :
    ∃ out w, (Compiler.compile ⟨(b.add (.text x) offset).tree, registry⟩ b.root { handlers, blocks := b.blocks }).1
      = out ++ w ∧ p out ∧ (w = [] ∨ w = x) := by
  have inside := inside_current sound
  have added : (b.add (.text x) offset).Sound := sound_add sound rfl offset
  let c : Compiler σ := ⟨b.tree.append b.current (.text x) offset, registry⟩
  have kind := Tree.kind?_append inside (.text x) offset
  have parent := Tree.parent?_append inside (.text x) offset
  have children := Tree.children_append inside (.text x) offset b.root
  have fresh : b.tree.size ∉ b.tree.children b.root := fun mem =>
    Nat.lt_irrefl _ (sound.gathered.ordered _ _ mem).2
  have apart : ∀ outer, c.tree.parent? b.tree.size = some outer → outer ≠ b.root → c.tree.isUnclosed outer = true := by
    intro outer held ne
    rw [parent, if_pos rfl] at held
    cases held
    rw [Tree.isUnclosed_append inside, if_neg (Nat.ne_of_lt inside)]
    exact isUnclosed_current reports ne
  have texts : ∀ id y, id ≠ b.tree.size → c.tree.kind? id = some (.text y) → p y := by
    intro id y ne eq
    rw [kind, if_neg ne] at eq
    exact written.text id y eq
  have text : c.tree.kind? b.tree.size = some (.text x) := (kind b.tree.size).trans (if_pos rfl)
  have split : ∃ tail, c.tree.children b.root = b.tree.children b.root ++ tail ∧
      (tail = [] ∨ tail = [b.tree.size] ∧ ∃ w, c.tree.kind? b.tree.size = some (.text w)) := by
    by_cases same : b.root = b.current
    · exact ⟨[b.tree.size], children.trans (if_pos same), .inr ⟨rfl, x, text⟩⟩
    · exact ⟨[], children.trans ((if_neg same).trans (List.append_nil _).symm), .inl rfl⟩
  obtain ⟨tail, split, ends⟩ := split
  have root : c.tree.kind? b.root = some .root :=
    (kind b.root).trans ((if_neg (root_ne_size sound)).trans written.root)
  obtain ⟨out, w, eq, holds, last⟩ := Compiler.exists_output (c := c) (s := { handlers, blocks := b.blocks })
    added.gathered root apart added.root_parent composes texts (owned.append inside rfl offset) written.unused split fresh
    ends
  refine ⟨out, w, eq, holds, last.imp_right fun eq => ?_⟩
  rw [text] at eq
  cases eq
  rfl

end Output

/-- **The output of a file is joined from its texts**, the last one behind all others. -/
theorem exists_output_build (composes : Compiler.Composes p registry) (tokens : List Token) (source : Text)
    (texts : ∀ t ∈ tokens.dropLast, ∀ x, t.fragment = .text x → p x) (handlers : σ) :
    let b := Tree.build tokens source {} {}
    ∃ out w, (Compiler.compile ⟨b.tree, registry⟩ b.root { handlers, blocks := b.blocks }).1 = out ++ w ∧ p out ∧
      (w = [] ∨ ∃ t, tokens.getLast? = some t ∧ t.fragment = .text w) := by
  obtain ⟨tree_eq, blocks_eq, root_eq⟩ := foldl_reportMissing
    (tokens.foldl push (start source {} {})).openBlocks (tokens.foldl push (start source {} {}))
  intro b
  change b.tree = _ at tree_eq
  change b.blocks = _ at blocks_eq
  change b.root = _ at root_eq
  rw [tree_eq, blocks_eq, root_eq]
  have start_sound := sound_start source Chain.gathered_empty
  have start_owned : (start source {} {}).tree.Owned (start source {} {}).blocks := fun _ _ mem => by cases mem
  have start_reports : Reports [] (start source {} {}) := reports_start source {} ⟨[], rfl, .refl _⟩
  have made {ts : List Token} (all : ∀ t ∈ ts, ∀ x, t.fragment = .text x → p x) :
      Written p (fun _ => True) (ts.foldl push (start source {} {})) :=
    written_foldl_push trivial trivial ts _ start_sound (written_start source) all fun _ _ _ _ => trivial
  -- The last token is taken off: of all texts it alone may lack the property.
  rcases List.eq_nil_or_concat tokens with rfl | ⟨init, t, rfl⟩
  · exact ⟨_, [], (List.append_nil _).symm,
      output_of_written start_sound (written_start (q := fun _ => True) source) start_owned composes handlers, .inl rfl⟩
  · rw [List.concat_eq_append, List.dropLast_concat] at texts
    rw [List.concat_eq_append, List.foldl_append, List.foldl_cons, List.foldl_nil, List.getLast?_concat]
    have sound := sound_foldl_push init _ start_sound
    have owned := owned_foldl_push init _ start_sound start_owned
    cases fragment : t.fragment with
    | text x =>
      obtain ⟨out, w, eq, holds, last⟩ := exists_output_add sound (made texts) owned composes handlers
        (reports_foldl_push init _ start_sound start_reports) x t.start
      have pushed : (init.foldl push (start source {} {})).push t = (init.foldl push (start source {} {})).add (.text x) t.start := by
        rw [push, fragment]
      rw [pushed]
      refine ⟨out, w, eq, holds, last.imp_right ?_⟩
      rintro rfl
      exact ⟨t, rfl, fragment⟩
    | tag tag =>
      have written := written_push sound (made texts) trivial trivial (t := t)
        (fun x eq => by cases fragment.symm.trans eq) fun _ _ => trivial
      exact ⟨_, [], (List.append_nil _).symm,
        output_of_written (sound_push sound t) written (owned_push sound owned t) composes handlers, .inl rfl⟩

/-- **Every diagnostic of a file in memory names a tag.** -/
theorem isName_of_mem_diagnostics (text source : Text) :
    ∀ d ∈ (Tree.build (Token.tokenize text) source {} {}).diagnostics, d.file = none ∧ Tag.IsName d.tag := by
  have written : Written (fun _ => True) Tag.IsName ((Token.tokenize text).foldl push (start source {} {})) := by
    refine written_foldl_push (fun _ mem => nomatch mem) (by decide) _ _ (sound_start source Chain.gathered_empty)
      (written_start source) (fun _ _ _ _ => trivial) fun t mem tag eq => ?_
    exact Token.named_tokenize text tag (eq ▸ List.mem_map_of_mem mem)
  exact (written_foldl (fun written => written_reportMissing written (fun _ mem => nomatch mem)) _ _ written).diagnostic

end Builder

end TagTemplate
