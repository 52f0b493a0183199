/-
# Proofs.Engine.Play -- what an engine makes of a script

The loader never fails: it says `missing` or `failed`, and the rest is for the script
(`run_answer`).  What is asked for a second time is answered from the table, and changes
nothing (`run_load`).

A script is played step by step.  Played behind another one it finds the templates that the
first one has read (`play_bind`), and whatever it asks for, the only error it comes to is
one of rendering (`play_error`).
-/
import TagTemplate.Engine.Render
import TagTemplate.Proofs.Engine

namespace TagTemplate

set_option autoImplicit false

variable {σ α β : Type}

/-! ## Scripts -/

namespace Script

theorem bind_done (x : Script α) : x.bind done = x := by
  induction x with
  | done a => rfl
  | fails => rfl
  | load name next ih => exact congrArg (load name) (funext ih)

theorem bind_bind {γ : Type} (x : Script α) (f : α → Script β) (g : β → Script γ) :
    (x.bind f).bind g = x.bind fun a => (f a).bind g := by
  induction x with
  | done a => rfl
  | fails => rfl
  | load name next ih => exact congrArg (load name) (funext ih)

instance : LawfulMonad Script :=
  LawfulMonad.mk' Script bind_done (fun _ _ => rfl) bind_bind

theorem done_eq_pure (a : α) : done a = pure a := rfl

end Script

/-! ## The loader -/

def Loading.ofAnswer : Except Error Text → Loading
  | .ok compiled => .found compiled
  | .error (.templateNotFound _) => .missing
  | .error _ => .failed

namespace Engine

def keep (loaded : Loaded) (name : Text) : Loading → Loaded
  | .found compiled => (name, compiled) :: loaded
  | _ => loaded

def read? (loaded : Loaded) (name : Text) : Option Text := (loaded.find? fun p => p.1 == name).map (·.2)

variable (e : Engine σ)

/-- The loader compiles the template, and never fails. -/
theorem run_answer (name : Text) (s : Session σ) :
    (e.answer name).run s = (.ok (.ofAnswer ((e.getCompiled name).run s).1), ((e.getCompiled name).run s).2) := by
  rw [answer, run_tryCatch, run_map]
  rcases (e.getCompiled name).run s with ⟨err | compiled, s'⟩
  · cases err <;> rfl
  · rfl

/-- **What is read is asked for once.** -/
theorem run_load (loaded : Loaded) (name : Text) (s : Session σ) :
    (e.load loaded name).run s =
      match read? loaded name with
      | some compiled => (.ok (.found compiled, loaded), s)
      | none =>
        let answer := Loading.ofAnswer ((e.getCompiled name).run s).1
        (.ok (answer, keep loaded name answer), ((e.getCompiled name).run s).2) := by
  unfold load read?
  cases loaded.find? fun p => p.1 == name with
  | some p => rfl
  | none =>
    rw [run_bind, run_answer]
    cases Loading.ofAnswer ((e.getCompiled name).run s).1 <;> rfl

/-! ## Scripts that are played -/

theorem play_load (loaded : Loaded) (name : Text) (next : Loading → Script α) :
    e.play loaded (.load name next) = e.load loaded name >>= fun r => e.play r.2 (next r.1) := rfl

/-- What is done next finds the templates that were read before. -/
theorem play_bind (loaded : Loaded) (x : Script α) (f : α → Script β) :
    e.play loaded (x >>= f) = e.play loaded x >>= fun r => e.play r.2 (f r.1) := by
  induction x generalizing loaded with
  | done a => rfl
  | fails => rfl
  | load name next ih =>
    show e.play loaded (.load name fun answer => next answer >>= f) = _
    rw [play_load, play_load, bind_assoc]
    exact congrArg (e.load loaded name >>= ·) (funext fun r => ih r.1 r.2)

theorem play_map (loaded : Loaded) (x : Script α) (f : α → β) :
    e.play loaded (f <$> x) = (fun r => (f r.1, r.2)) <$> e.play loaded x := by
  rw [map_eq_pure_bind, play_bind, map_eq_pure_bind]
  rfl

/-- **Whatever goes wrong in a script, the error is one of rendering.** -/
theorem play_error {loaded : Loaded} {x : Script α} {s s' : Session σ} {err : Error}
    (fails : (e.play loaded x).run s = (.error err, s')) : err = .render := by
  induction x generalizing loaded s with
  | done a => cases fails
  | fails =>
    cases fails
    rfl
  | load name next ih =>
    rw [play_load, run_bind, run_load] at fails
    cases known : read? loaded name with
    | some compiled =>
      rw [known] at fails
      exact ih _ fails
    | none =>
      rw [known] at fails
      exact ih _ fails

end Engine

end TagTemplate
