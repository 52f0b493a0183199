/-
# Proofs.Compile.Inheritance -- what a chain without nested definitions says

Where no definition contains another, a chain has a plain meaning.  The bodies of a
name are what its closed definitions held, in the order they were closed, which is
from the most concrete file to the last one (`Tree.bodies`).  The text of a body is
its own markup, with the text of the next body of the name in the place of every
`parent` tag; beyond the last body there is none (`expand`).

The output is the markup of the last file with the first body of its name in the
place of every closed definition (`compileChain_eq_expansion`).  There is no cursor
in that, no parked body, no text that was kept and no list of active names: those of
the compiler agree with it because the only body that can be around another one is
of the same name, so the cursor of a name counts the bodies of that name around
(`bodyText_eq_expand`).
-/
import TagTemplate.Proofs.Compile.Output

namespace TagTemplate

set_option autoImplicit false

/-! ## Bodies and their texts -/

/-- The bodies of a name: what its closed definitions held, in the order they were added. -/
def Tree.bodies (t : Tree) (name : Text) : List (List Markup) :=
  (t.definitions name).map fun id => (t.offspring id).map t.markup

def expand (sense : Sense) (bodies : Text → List (List Markup)) (name : Text) (level : Nat) : Text :=
  match _found : (bodies name)[level]? with
  | none => []
  | some body => Markup.meanings { sense with parent := expand sense bodies name (level + 1) } body
termination_by (bodies name).length - level
decreasing_by
  have := (List.getElem?_eq_some_iff.1 _found).1
  omega

/-! ## Definitions in the markup of a node -/

namespace Tree

variable {t : Tree} {s : BlockStack}

/-- A name in the markup of a node belongs to a closed definition at that node or below it. -/
theorem exists_definition_of_mem_names {path : List NodeId} (g : t.Gathered s path) (id : Nat) {name : Text}
    (mem : name ∈ (t.markup id).names) :
    ∃ definition, t.closedName? definition = some name ∧ (definition = id ∨ id ∈ t.ancestors definition) := by
  have below : ∀ name ∈ Markup.namesOf ((t.children id).map t.markup),
      ∃ definition, t.closedName? definition = some name ∧ id ∈ t.ancestors definition := by
    intro name mem
    obtain ⟨m, m_mem, mem⟩ := (Markup.mem_namesOf_iff ..).1 mem
    obtain ⟨child, child_mem, rfl⟩ := List.mem_map.1 m_mem
    have inside := g.ordered id child child_mem
    obtain ⟨definition, closed, place⟩ := exists_definition_of_mem_names g child mem
    have parent : t.parent? child = some id := by
      rw [g.children] at child_mem
      split at child_mem
      · cases child_mem
      · exact (mem_offspring_iff ..).1 child_mem
    have above : id ∈ t.ancestors child := by
      rw [ancestors_of_parent? g.rising parent]
      exact List.mem_cons_self ..
    refine ⟨definition, closed, ?_⟩
    rcases place with rfl | lower
    · exact above
    · exact mem_ancestors_trans above lower
  rw [markup_eq g.ordered] at mem
  cases kind : t.kind? id with
  | none =>
    rw [kind] at mem
    cases mem
  | some k =>
    rw [kind] at mem
    cases k with
    | root =>
      obtain ⟨definition, closed, lower⟩ := below name mem
      exact ⟨definition, closed, .inr lower⟩
    | text _ => cases mem
    | value _ _ _ => cases mem
    | parentValue => cases mem
    | block tag attributes state =>
      cases state with
      | closed =>
        obtain ⟨definition, closed, lower⟩ := below name mem
        exact ⟨definition, closed, .inr lower⟩
      | opened => cases mem
      | abandoned => cases mem
    | definition other attributes state =>
      cases state with
      | closed =>
        obtain rfl : name = other := List.mem_singleton.1 mem
        exact ⟨id, by rw [closedName?, kind]; rfl, .inl rfl⟩
      | opened => cases mem
      | abandoned => cases mem
termination_by t.size - id

/-- Where no definition contains another, bodies ask for no body. -/
theorem names_eq_nil_of_flat (g : t.Gathered s []) (flat : t.Flat) {name : Text} {body : Body}
    (mem : body ∈ (s.slot name).bodies) : Markup.namesOf (body.markup t) = [] := by
  rw [g.bodies flat] at mem
  obtain ⟨definition, definition_mem, rfl⟩ := List.mem_map.1 mem
  have outer_closed : t.closedName? definition = some name := by simpa using (List.mem_filter.1 definition_mem).2
  rw [List.eq_nil_iff_forall_not_mem]
  intro other mentioned
  obtain ⟨m, m_mem, mentioned⟩ := (Markup.mem_namesOf_iff ..).1 mentioned
  obtain ⟨child, child_mem, rfl⟩ := List.mem_map.1 m_mem
  have above : definition ∈ t.ancestors child := by
    rw [ancestors_of_parent? g.rising ((mem_offspring_iff ..).1 child_mem)]
    exact List.mem_cons_self ..
  obtain ⟨inner, closed, place⟩ := exists_definition_of_mem_names g child mentioned
  have around : definition ∈ t.ancestors inner := by
    rcases place with rfl | lower
    · exact above
    · exact mem_ancestors_trans above lower
  have outer_open := flat inner definition around (by rw [closed]; rfl)
  rw [outer_open] at outer_closed
  cases outer_closed

theorem layered_of_flat (g : t.Gathered s []) (flat : t.Flat) : s.Layered t := by
  have contains_none : ∀ name other, ¬ s.Contains t name other := by
    rintro name other ⟨body, mem, mentioned⟩
    rw [names_eq_nil_of_flat g flat mem] at mentioned
    cases mentioned
  intro name other there _
  induction there with
  | refl => rfl
  | tail _ contains _ => exact (contains_none _ _ contains).elim

theorem bodies_eq_of_flat (g : t.Gathered s []) (flat : t.Flat) (name : Text) :
    (s.slot name).bodies.map (Body.markup t) = t.bodies name := by
  rw [g.bodies flat, List.map_map]
  rfl

end Tree

/-! ## The output -/

variable {σ : Type}

theorem expand_of_none {sense : Sense} {bodies : Text → List (List Markup)} {name : Text} {level : Nat}
    (found : (bodies name)[level]? = none) : expand sense bodies name level = [] := by
  rw [expand]
  split
  · rfl
  · simp_all

theorem expand_of_some {sense : Sense} {bodies : Text → List (List Markup)} {name : Text} {level : Nat}
    {body : List Markup} (found : (bodies name)[level]? = some body) :
    expand sense bodies name level
      = Markup.meanings { sense with parent := expand sense bodies name (level + 1) } body := by
  rw [expand]
  split
  · simp_all
  · rename_i same
    rw [found] at same
    cases same
    rfl

/-- **The cursor counts the bodies of a name around**, and those are all that matters for its text. -/
theorem bodyText_eq_expand (c : Compiler σ) (start : CompileState σ) (g : c.tree.Gathered start.blocks [])
    (flat : c.tree.Flat) (active : List Text) (name : Text) :
    c.bodyText start active name
      = expand (c.registry.sense start.handlers) c.tree.bodies name (active.count name) := by
  have bodies := Tree.bodies_eq_of_flat g flat name
  cases next : (start.blocks.slot name).bodies[active.count name]? with
  | none =>
    rw [Compiler.bodyText_of_none next, expand_of_none]
    rw [← bodies, List.getElem?_map, next]
    rfl
  | some body =>
    obtain ⟨inside, eq⟩ := List.getElem?_eq_some_iff.1 next
    have found : (c.tree.bodies name)[active.count name]? = some (body.markup c.tree) := by
      rw [← bodies, List.getElem?_map, next]
      rfl
    have parent : c.bodyText start (name :: active) name
        = expand (c.registry.sense start.handlers) c.tree.bodies name (active.count name + 1) := by
      rw [bodyText_eq_expand c start g flat (name :: active) name, List.count_cons_self]
    have names := Tree.names_eq_nil_of_flat g flat (eq ▸ List.getElem_mem inside)
    rw [Compiler.bodyText_of_some next, expand_of_some found]
    refine Markup.meanings_congr ?_ _ fun other mem => ?_
    · exact ⟨rfl, rfl, parent⟩
    · rw [names] at mem
      cases mem
termination_by start.blocks.remaining active
decreasing_by exact BlockStack.remaining_cons_lt inside

/-- **What a chain without nested definitions says**: the markup of its last file, with the expansion of
its name in the place of every closed definition, for every chain that is built from files and handlers
that leave their state alone. -/
theorem compileChain_eq_expansion (e : Engine σ) (pure : e.registry.Pure) {fs : FileSystem}
    {origin : Option Template} {source : Text} {log : List Event} {chain : Chain}
    (built : ((Chain.ofSource e.settings fs origin source).run log).1 = .ok chain) (flat : chain.tree.Flat)
    (s : Session σ) :
    ((e.compileChain chain).run s).1 =
      .ok ⟨(chain.tree.markup chain.root).meaning
          { e.registry.sense s.handlers with
            parent := []
            definition := fun name => expand (e.registry.sense s.handlers) chain.tree.bodies name 0 },
        chain.diagnostics⟩ := by
  have g := Chain.gathered_of_ofSource built
  have definition : Compiler.bodyText ⟨chain.tree, e.registry⟩ (chain.initial s.handlers) []
      = fun name => expand (e.registry.sense s.handlers) chain.tree.bodies name 0 :=
    funext fun name =>
      bodyText_eq_expand ⟨chain.tree, e.registry⟩ (chain.initial s.handlers) g flat [] name
  rw [Engine.run_compileChain, Chain.outputWith_eq_meaning pure built (Tree.layered_of_flat g flat),
    Compiler.senseIn, definition]
  rfl

/-- Three files that override one name twice, each asking for the body above. -/
def overridingChain : Chain :=
  chainIn [(['m'], extending ['r'] ++ defining ['a'] (['2'] ++ above)), (['r'], ['['] ++ defining ['a'] ['3'] ++ [']'])]
    (extending ['m'] ++ defining ['a'] (['1'] ++ above))

theorem compileChain_overriding :
    ((libraryEngine.compileChain overridingChain).run ⟨.empty, (), []⟩).1 =
      .ok ⟨(overridingChain.tree.markup overridingChain.root).meaning
          { libraryEngine.registry.sense () with
            parent := []
            definition := fun name => expand (libraryEngine.registry.sense ()) overridingChain.tree.bodies name 0 },
        overridingChain.diagnostics⟩ :=
  compileChain_eq_expansion libraryEngine pure_libraryEngine (built_chainIn (by decide +kernel)) (by decide +kernel) _

/-- Its output has the three bodies from the most concrete on. -/
example : ((libraryEngine.compileChain overridingChain).run ⟨.empty, (), []⟩).1.toOption.map (·.output)
    = some "[123]".toList := by decide +kernel

end TagTemplate
