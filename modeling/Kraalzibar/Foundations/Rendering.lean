import Kraalzibar.Foundations.ShortCircuit

/-!
# One program behind two front ends

A front end of a fallible program passes its calls on and renders its result.  Two front
ends of one program make the same calls whatever they are answered, so they can be told
apart by what they render only.

* `Fallible.rendered` — a program with its result rendered;
* `Fallible.rendered_bind`, `rendered_rendered` — a front end that goes on without a call,
  and a front end of a front end, are front ends;
* `Fallible.Rendering` — two programs are front ends of a third, and render each of its
  results alike.
-/

namespace Foundations

namespace Fallible

variable {Call : Type} {Reply : Call → Type} {ε ε₁ ε₂ α α₁ α₂ : Type}

/-- The program `p`, whose result is rendered by `f`. -/
def rendered (f : Except ε α → Except ε₁ α₁) (p : Fallible ε Call Reply α) :
    Fallible ε₁ Call Reply α₁ :=
  ExceptT.mk (p.run >>= fun result => pure (f result))

/-- A continuation that makes no call is part of the rendering. -/
theorem rendered_bind (f : Except ε α → Except ε₁ α₁) (p : Fallible ε Call Reply α)
    (g : α₁ → Except ε₁ α₂) :
    (rendered f p >>= fun a => ExceptT.mk (pure (g a))) =
      rendered (fun result => f result >>= g) p := by
  have hassoc := bind_assoc (m := Client Call Reply) p.run (fun result => pure (f result))
    (ExceptT.bindCont fun a => ExceptT.mk (pure (g a)))
  refine hassoc.trans (congrArg (p.run >>= ·) (funext fun result => ?_))
  cases hresult : f result with
  | error e =>
      simp only [pure_bind, error_bind, hresult]
      rfl
  | ok a =>
      simp only [pure_bind, ok_bind, hresult]
      rfl

/-- What is computed of an answer may be computed before or after the errors are renamed. -/
theorem rendered_pure (e : ε → ε₁) (p : Fallible ε Call Reply α) (k : α → α₁) :
    rendered (·.mapError e) (p >>= fun a => pure (k a)) =
      rendered (·.mapError e) p >>= fun a => pure (k a) := by
  have hassoc := bind_assoc (m := Client Call Reply) p.run
    (ExceptT.bindCont fun a => pure (k a)) fun result => pure (result.mapError e)
  refine hassoc.trans (Eq.trans ?_ (rendered_bind _ p fun a => .ok (k a)).symm)
  refine congrArg (p.run >>= ·) (funext fun result => ?_)
  cases result <;> rfl

/-- A front end of a front end. -/
theorem rendered_rendered (f : Except ε α → Except ε₁ α₁) (g : Except ε₁ α₁ → Except ε₂ α₂)
    (p : Fallible ε Call Reply α) :
    rendered g (rendered f p) = rendered (fun result => g (f result)) p := by
  have hassoc := bind_assoc (m := Client Call Reply) p.run (fun result => pure (f result))
    fun result => pure (g result)
  refine hassoc.trans (congrArg (p.run >>= ·) (funext fun result => ?_))
  rw [pure_bind]

/-- `x` and `y` make the calls of `p`, and what they render of a result is `alike`. -/
def Rendering (alike : Except ε₁ α₁ → Except ε₂ α₂ → Prop) (p : Fallible ε Call Reply α)
    (x : Fallible ε₁ Call Reply α₁) (y : Fallible ε₂ Call Reply α₂) : Prop :=
  ∃ f g, x = rendered f p ∧ y = rendered g p ∧ ∀ result, alike (f result) (g result)

/-- Two front ends that rename the errors and go on without a call. -/
theorem Rendering.of_mapError {alike : Except ε₁ α₁ → Except ε₂ α₂ → Prop}
    {p : Fallible ε Call Reply α} {e₁ : ε → ε₁} {e₂ : ε → ε₂}
    (f : α → Except ε₁ α₁) (g : α → Except ε₂ α₂)
    (herror : ∀ e, alike (.error (e₁ e)) (.error (e₂ e))) (hok : ∀ a, alike (f a) (g a)) :
    Rendering alike p
      (rendered (·.mapError e₁) p >>= fun a => ExceptT.mk (pure (f a)))
      (rendered (·.mapError e₂) p >>= fun a => ExceptT.mk (pure (g a))) := by
  refine ⟨_, _, rendered_bind _ p f, rendered_bind _ p g, fun result => ?_⟩
  cases result with
  | error e => exact herror e
  | ok a => exact hok a

end Fallible

end Foundations
