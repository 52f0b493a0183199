/-
# Proofs.FileSystem.Agreement -- file systems that look alike in some places

Two file systems agree on some locations when each of these holds the same entry in
both (`AgreeOn`).  Every operation reads a few locations; where the two agree on those,
it comes to the same in both (`Alike`), and they still agree after it.  What lies
elsewhere may differ in any way.
-/
import TagTemplate.Proofs.SearchPath

namespace TagTemplate

set_option autoImplicit false

namespace FileSystem

/-- Two file systems hold the same entries in some locations, at the same time. -/
structure AgreeOn (P : Location → Prop) (fs fs' : FileSystem) : Prop where
  entry : ∀ l, P l → fs'.get? l = fs.get? l
  now : fs'.now = fs.now

/-- Two operations fail alike, or both succeed and come to file systems that agree. -/
inductive Alike (P : Location → Prop) : Except FileError FileSystem → Except FileError FileSystem → Prop where
  | ok {fs fs' : FileSystem} (agree : fs.AgreeOn P fs') : Alike P (.ok fs) (.ok fs')
  | error (e : FileError) : Alike P (.error e) (.error e)

namespace AgreeOn

variable {P : Location → Prop} {fs fs' : FileSystem}

theorem refl (P : Location → Prop) (fs : FileSystem) : fs.AgreeOn P fs := ⟨fun _ _ => rfl, rfl⟩

/-! ## Reading -/

theorem kind? (agree : fs.AgreeOn P fs') {l : Location} (seen : P l) : fs'.kind? l = fs.kind? l := by
  simp only [FileSystem.kind?, agree.entry l seen]

theorem isDirAt (agree : fs.AgreeOn P fs') {l : Location} (seen : P l) : fs'.isDirAt l = fs.isDirAt l :=
  isDirAt_congr (agree.kind? seen)

theorem readAt (agree : fs.AgreeOn P fs') {l : Location} (seen : P l) : fs'.readAt l = fs.readAt l := by
  simp only [FileSystem.readAt, agree.entry l seen]

theorem isFreshAt (agree : fs.AgreeOn P fs') {l m : Location} (seen : P l) (seen' : P m) :
    fs'.isFreshAt l m = fs.isFreshAt l m := by
  simp only [FileSystem.isFreshAt, agree.entry l seen, agree.entry m seen']

theorem sameBelow (agree : fs.AgreeOn P fs') {l : Location} (seen : ∀ m, l <+: m → P m) : fs.SameBelow fs' l :=
  fun m below => agree.kind? (seen m below)

/-! ## Writing -/

theorem set (agree : fs.AgreeOn P fs') (l : Location) (e : Entry) : (fs.set l e).AgreeOn P (fs'.set l e) where
  entry m seen := by rw [get?_set, get?_set, agree.entry m seen]
  now := agree.now

theorem erase (agree : fs.AgreeOn P fs') (l : Location) : (fs.erase l).AgreeOn P (fs'.erase l) where
  entry m seen := by rw [get?_erase, get?_erase, agree.entry m seen]
  now := agree.now

theorem touch (agree : fs.AgreeOn P fs') {l : Location} (seen : P l) : (fs.touch l).AgreeOn P (fs'.touch l) := by
  unfold FileSystem.touch
  rw [agree.entry l seen, agree.now]
  cases fs.get? l with
  | none => exact agree
  | some e => exact agree.set l _

theorem setMode (agree : fs.AgreeOn P fs') {l : Location} (seen : P l) (mode : Nat) :
    (fs.setMode l mode).AgreeOn P (fs'.setMode l mode) := by
  unfold FileSystem.setMode
  rw [agree.entry l seen]
  cases fs.get? l with
  | none => exact agree
  | some e => exact agree.set l _

theorem remove (agree : fs.AgreeOn P fs') {l : Location} (parent : P l.dropLast) :
    (fs.remove l).AgreeOn P (fs'.remove l) :=
  (agree.erase l).touch parent

theorem addDirectory (agree : fs.AgreeOn P fs') {l : Location} (parent : P l.dropLast) :
    (fs.addDirectory l).AgreeOn P (fs'.addDirectory l) := by
  unfold FileSystem.addDirectory
  rw [agree.now]
  exact (agree.set l _).touch parent

theorem writeAt (agree : fs.AgreeOn P fs') {l : Location} (seen : P l) (parent : P l.dropLast) (c : Contents) :
    Alike P (fs.writeAt l c) (fs'.writeAt l c) := by
  unfold FileSystem.writeAt
  rw [agree.entry l seen, agree.now]
  rcases fs.get? l with _ | ⟨_, mode, _⟩ | _
  · exact .ok ((agree.set l _).touch parent)
  · exact .ok (agree.set l _)
  · exact .error _

theorem move (agree : fs.AgreeOn P fs') {source target : Location} (seen : P source) (parent : P source.dropLast)
    (seen' : P target) (parent' : P target.dropLast) : Alike P (fs.move source target) (fs'.move source target) := by
  unfold FileSystem.move
  rw [agree.entry source seen, agree.isDirAt seen']
  cases fs.get? source with
  | none => exact .error _
  | some e =>
    dsimp only
    split
    · exact .error _
    · exact .ok ((((agree.erase source).set target e).touch parent).touch parent')

/-- Making directories reads no more than the locations on the way. -/
theorem makeBelow (names : List Text) : ∀ {fs fs' : FileSystem} {here : Location}, fs.AgreeOn P fs' →
    (∀ m, m <+: names → P (here ++ m)) → Alike P (fs.makeBelow here names) (fs'.makeBelow here names) := by
  induction names with
  | nil => exact fun agree _ => .ok agree
  | cons name names ih =>
    intro fs fs' here agree seen
    have on : P here := by simpa using seen [] List.nil_prefix
    have next : P (here ++ [name]) := seen [name] (List.prefix_append [name] names)
    have further : ∀ m, m <+: names → P (here ++ [name] ++ m) := by
      intro m below
      rw [← List.append_cons]
      exact seen (name :: m) (List.cons_prefix_cons.2 ⟨rfl, below⟩)
    unfold FileSystem.makeBelow
    rw [agree.entry _ next]
    rcases fs.get? (here ++ [name]) with _ | _ | _
    · exact ih (agree.addDirectory (by simpa using on)) further
    · exact .error _
    · exact ih agree further

end AgreeOn

end FileSystem

end TagTemplate
