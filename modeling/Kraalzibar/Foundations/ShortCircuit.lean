import Kraalzibar.Foundations.Client
import Mathlib.Data.List.Forall2

/-!
# Fallible evaluations and short-circuit loops

`Fallible ε Call Reply α` is a client program that may also stop with an error.
`eval` runs it alone; it is a monad morphism into `Except ε`, and it commutes
with the short-circuit loops `List.anyM` and `List.allM`.

An evaluator that stops at the first decisive answer, or at the first error,
never looks at the rest.  `Decides x P` says what such an evaluator still owes:
*if* it answers, the answer is the truth value of `P`.  The rules below build
`Decides` through every boolean connective, with no case split on how far the
loop got.
-/

namespace Foundations

@[simp] theorem ok_bind {ε α β : Type} (a : α) (f : α → Except ε β) :
    (Except.ok a >>= f) = f a := rfl

@[simp] theorem error_bind {ε α β : Type} (e : ε) (f : α → Except ε β) :
    (Except.error e >>= f) = .error e := rfl

/-- A sequence answers exactly when both parts do. -/
theorem bind_eq_ok {ε α β : Type} {x : Except ε α} {f : α → Except ε β} {b : β} :
    (x >>= f) = .ok b ↔ ∃ a, x = .ok a ∧ f a = .ok b := by
  cases x with
  | error e => simp
  | ok a => simp

/-- Renaming the errors changes no answer. -/
theorem mapError_eq_ok {ε ε' α : Type} {x : Except ε α} {f : ε → ε'} {a : α} :
    x.mapError f = .ok a ↔ x = .ok a := by
  cases x <;> simp [Except.mapError]

/-- A sequence fails where one of its parts does. -/
theorem bind_eq_error {ε α β : Type} {x : Except ε α} {f : α → Except ε β} {e : ε} :
    (x >>= f) = .error e ↔ x = .error e ∨ ∃ a, x = .ok a ∧ f a = .error e := by
  cases x with
  | error e' => simp
  | ok a => simp

/-- Loop bodies that agree on every element give the same short-circuit "any". -/
theorem anyM_congr {m : Type → Type} [Monad m] {α : Type} {l : List α}
    {f g : α → m Bool} (h : ∀ a ∈ l, f a = g a) : l.anyM f = l.anyM g := by
  induction l with
  | nil => rfl
  | cons a l ih =>
      simp only [List.anyM, h a List.mem_cons_self,
        ih (fun a' ha' => h a' (List.mem_cons_of_mem a ha'))]

/-- Loop bodies that agree on every element give the same short-circuit "all". -/
theorem allM_congr {m : Type → Type} [Monad m] {α : Type} {l : List α}
    {f g : α → m Bool} (h : ∀ a ∈ l, f a = g a) : l.allM f = l.allM g := by
  induction l with
  | nil => rfl
  | cons a l ih =>
      simp only [List.allM, h a List.mem_cons_self,
        ih (fun a' ha' => h a' (List.mem_cons_of_mem a ha'))]

/-- Loop bodies that agree on every element collect the same results. -/
theorem mapM_congr {m : Type → Type} [Monad m] [LawfulMonad m] {α β : Type}
    {l : List α} {f g : α → m β} (h : ∀ a ∈ l, f a = g a) : l.mapM f = l.mapM g := by
  induction l with
  | nil => rfl
  | cons a l ih =>
      simp only [List.mapM_cons, h a List.mem_cons_self,
        ih (fun a' ha' => h a' (List.mem_cons_of_mem a ha'))]

/-- "First and not second": the second is evaluated only after the first
answered `true`. -/
def andNotM {m : Type → Type} [Monad m] (x y : m Bool) : m Bool := do
  if !(← x) then
    return false
  else
    return !(← y)

/-- A client program that may stop with an error. -/
abbrev Fallible (ε : Type) (Call : Type) (Reply : Call → Type) (α : Type) :=
  ExceptT ε (Client Call Reply) α

namespace Fallible

variable {ε Call : Type} {Reply : Call → Type} {α β : Type}
variable (answer : ∀ c, Reply c)

/-- The outcome of a program run alone with the given answers. -/
def eval (x : Fallible ε Call Reply α) : Except ε α :=
  Client.runWith answer x.run

@[simp] theorem eval_pure (a : α) :
    eval answer (pure a : Fallible ε Call Reply α) = .ok a := rfl

@[simp] theorem eval_bind (x : Fallible ε Call Reply α)
    (f : α → Fallible ε Call Reply β) :
    eval answer (x >>= f) = eval answer x >>= fun a => eval answer (f a) := by
  show Client.runWith answer (x.run >>= ExceptT.bindCont f) = _
  rw [Client.runWith_bind]
  show _ = (Client.runWith answer x.run >>= fun a => eval answer (f a))
  cases Client.runWith answer x.run <;> rfl

@[simp] theorem eval_anyM {γ : Type} (l : List γ)
    (f : γ → Fallible ε Call Reply Bool) :
    eval answer (l.anyM f) = l.anyM (fun c => eval answer (f c)) := by
  induction l with
  | nil => rfl
  | cons c l ih =>
      simp only [List.anyM, eval_bind]
      congr 1
      funext b
      cases b
      · exact ih
      · rfl

@[simp] theorem eval_allM {γ : Type} (l : List γ)
    (f : γ → Fallible ε Call Reply Bool) :
    eval answer (l.allM f) = l.allM (fun c => eval answer (f c)) := by
  induction l with
  | nil => rfl
  | cons c l ih =>
      simp only [List.allM, eval_bind]
      congr 1
      funext b
      cases b
      · rfl
      · exact ih

@[simp] theorem eval_andNotM (x y : Fallible ε Call Reply Bool) :
    eval answer (andNotM x y) = andNotM (eval answer x) (eval answer y) := by
  simp only [andNotM, eval_bind]
  congr 1
  funext b
  cases b
  · rfl
  · show eval answer (y >>= fun b => pure (!b)) = _
    rw [eval_bind]
    rfl

@[simp] theorem eval_mapM {γ : Type} (l : List γ)
    (f : γ → Fallible ε Call Reply α) :
    eval answer (l.mapM f) = l.mapM (fun c => eval answer (f c)) := by
  induction l with
  | nil => rfl
  | cons c l ih =>
      simp only [List.mapM_cons, eval_bind, eval_pure, ih]
      rfl

/-! ### Programs that stop at a bad reply -/

/-- Every call satisfies `P`, and a bad reply stops the program with an error. -/
def Guarded (P : Call → Prop) (bad : ∀ c, Reply c → Prop)
    (x : Fallible ε Call Reply α) : Prop :=
  Client.Guarded P bad (fun result => ∃ e, result = .error e) x.run

section

variable {P : Call → Prop} {bad : ∀ c, Reply c → Prop}

theorem Guarded.pure (a : α) : Guarded P bad (Pure.pure a : Fallible ε Call Reply α) :=
  .done _

theorem Guarded.throw (e : ε) :
    Guarded P bad (MonadExcept.throw e : Fallible ε Call Reply α) :=
  .done _

theorem Guarded.bind {x : Fallible ε Call Reply α} {f : α → Fallible ε Call Reply β}
    (hx : Guarded P bad x) (hf : ∀ a, Guarded P bad (f a)) : Guarded P bad (x >>= f) := by
  refine Client.Guarded.bind (p := x.run) hx ?_ ?_
  · intro result
    cases result with
    | error e => exact .done _
    | ok a => exact hf a
  · intro _ hparts
    obtain ⟨e, rfl⟩ := hparts
    exact ⟨.error e, rfl, e, rfl⟩

theorem Guarded.anyM {γ : Type} {l : List γ} {f : γ → Fallible ε Call Reply Bool}
    (hf : ∀ c ∈ l, Guarded P bad (f c)) : Guarded P bad (l.anyM f) := by
  induction l with
  | nil => exact .pure false
  | cons c l ih =>
      refine (hf c List.mem_cons_self).bind ?_
      intro b
      cases b with
      | true => exact .pure true
      | false => exact ih (fun c' hc' => hf c' (List.mem_cons_of_mem c hc'))

theorem Guarded.allM {γ : Type} {l : List γ} {f : γ → Fallible ε Call Reply Bool}
    (hf : ∀ c ∈ l, Guarded P bad (f c)) : Guarded P bad (l.allM f) := by
  induction l with
  | nil => exact .pure true
  | cons c l ih =>
      refine (hf c List.mem_cons_self).bind ?_
      intro b
      cases b with
      | true => exact ih (fun c' hc' => hf c' (List.mem_cons_of_mem c hc'))
      | false => exact .pure false

theorem Guarded.mapM {γ : Type} {l : List γ} {f : γ → Fallible ε Call Reply α}
    (hf : ∀ c ∈ l, Guarded P bad (f c)) : Guarded P bad (l.mapM f) := by
  induction l with
  | nil => exact .pure []
  | cons c l ih =>
      have htail := ih (fun c' hc' => hf c' (List.mem_cons_of_mem c hc'))
      rw [List.mapM_cons]
      exact (hf c List.mem_cons_self).bind fun a => htail.bind fun as => .pure (a :: as)

theorem Guarded.andNotM {x y : Fallible ε Call Reply Bool} (hx : Guarded P bad x)
    (hy : Guarded P bad y) : Guarded P bad (Foundations.andNotM x y) := by
  refine hx.bind ?_
  intro b
  cases b with
  | false => exact .pure false
  | true => exact hy.bind fun c => .pure (!c)

end

end Fallible

/-- If the evaluation answers, its answer is the truth value of `P`. -/
def Decides {ε : Type} (x : Except ε Bool) (P : Prop) : Prop :=
  ∀ b, x = .ok b → (b = true ↔ P)

namespace Decides

variable {ε α : Type} {P Q : Prop} {x y : Except ε Bool}

theorem error (e : ε) : Decides (.error e : Except ε Bool) P := by
  intro b hb
  cases hb

theorem ok {b : Bool} (h : b = true ↔ P) : Decides (.ok b : Except ε Bool) P := by
  intro b' hb'
  cases hb'
  exact h

/-- Every evaluation decides whether it answers `true`. -/
theorem self (x : Except ε Bool) : Decides x (x = .ok true) := by
  intro b hb
  rw [hb, Except.ok.injEq]

theorem congr (h : Decides x P) (hPQ : P ↔ Q) : Decides x Q :=
  fun b hb => (h b hb).trans hPQ

/-- A loop that stops at the first `true` decides "some element". -/
theorem anyM {l : List α} {f : α → Except ε Bool} {P : α → Prop}
    (h : ∀ a ∈ l, Decides (f a) (P a)) :
    Decides (l.anyM f) (∃ a ∈ l, P a) := by
  induction l with
  | nil => exact .ok (by simp)
  | cons a l ih =>
      have ha := h a List.mem_cons_self
      have hl := ih (fun a' ha' => h a' (List.mem_cons_of_mem a ha'))
      intro b hb
      cases hfa : f a with
      | error e => simp [List.anyM, hfa] at hb
      | ok first =>
          cases first with
          | true =>
              have htrue : true = b := by
                simpa [List.anyM, hfa, pure, Except.pure] using hb
              subst htrue
              simp [(ha true hfa).mp rfl]
          | false =>
              have hrest : l.anyM f = .ok b := by
                simpa [List.anyM, hfa] using hb
              have hnot : ¬ P a := fun hP => by simpa using (ha false hfa).mpr hP
              simpa [hnot] using hl b hrest

/-- A loop that stops at the first `false` decides "every element". -/
theorem allM {l : List α} {f : α → Except ε Bool} {P : α → Prop}
    (h : ∀ a ∈ l, Decides (f a) (P a)) :
    Decides (l.allM f) (∀ a ∈ l, P a) := by
  induction l with
  | nil => exact .ok (by simp)
  | cons a l ih =>
      have ha := h a List.mem_cons_self
      have hl := ih (fun a' ha' => h a' (List.mem_cons_of_mem a ha'))
      intro b hb
      cases hfa : f a with
      | error e => simp [List.allM, hfa] at hb
      | ok first =>
          cases first with
          | true =>
              have hrest : l.allM f = .ok b := by
                simpa [List.allM, hfa] using hb
              simpa [(ha true hfa).mp rfl] using hl b hrest
          | false =>
              have hfalse : false = b := by
                simpa [List.allM, hfa, pure, Except.pure] using hb
              subst hfalse
              have hnot : ¬ P a := fun hP => by simpa using (ha false hfa).mpr hP
              simp [hnot]

theorem andNotM (hx : Decides x P) (hy : Decides y Q) :
    Decides (Foundations.andNotM x y) (P ∧ ¬ Q) := by
  intro b hb
  cases x with
  | error e => cases hb
  | ok first =>
      cases first with
      | false =>
          have hnot : ¬ P := fun hP => by simpa using (hx false rfl).mpr hP
          have hfalse : false = b := by
            simpa [Foundations.andNotM, pure, Except.pure] using hb
          subst hfalse
          simp [hnot]
      | true =>
          cases y with
          | error e => cases hb
          | ok second =>
              have hb' : (!second) = b := by
                simpa [Foundations.andNotM, pure, Except.pure] using hb
              subst hb'
              have hP := (hx true rfl).mp rfl
              have hQ := hy second rfl
              cases second <;> simp_all

end Decides

/-- If the evaluation fails, it is with an error of `E`. -/
def FailsOnly {ε α : Type} (E : ε → Prop) (x : Except ε α) : Prop :=
  ∀ e, x = .error e → E e

namespace FailsOnly

variable {ε α β : Type} {E : ε → Prop} {x : Except ε α}

theorem ok (a : α) : FailsOnly E (.ok a) := by
  intro e h
  cases h

theorem error {e : ε} (h : E e) : FailsOnly E (.error e : Except ε α) := by
  intro e' h'
  cases h'
  exact h

theorem ok_or_error (h : FailsOnly E x) : (∃ a, x = .ok a) ∨ ∃ e, x = .error e ∧ E e := by
  cases x with
  | error e => exact Or.inr ⟨e, rfl, h e rfl⟩
  | ok a => exact Or.inl ⟨a, rfl⟩

theorem bind {f : α → Except ε β} (hx : FailsOnly E x)
    (hf : ∀ a, x = .ok a → FailsOnly E (f a)) : FailsOnly E (x >>= f) := by
  intro e h
  rcases bind_eq_error.mp h with h | ⟨a, ha, h⟩
  · exact hx e h
  · exact hf a ha e h

theorem anyM {l : List α} {f : α → Except ε Bool} (h : ∀ a ∈ l, FailsOnly E (f a)) :
    FailsOnly E (l.anyM f) := by
  induction l with
  | nil => exact .ok false
  | cons a l ih =>
      refine (h a List.mem_cons_self).bind ?_
      intro b _
      cases b with
      | true => exact .ok true
      | false => exact ih (fun a' ha' => h a' (List.mem_cons_of_mem a ha'))

theorem allM {l : List α} {f : α → Except ε Bool} (h : ∀ a ∈ l, FailsOnly E (f a)) :
    FailsOnly E (l.allM f) := by
  induction l with
  | nil => exact .ok true
  | cons a l ih =>
      refine (h a List.mem_cons_self).bind ?_
      intro b _
      cases b with
      | true => exact ih (fun a' ha' => h a' (List.mem_cons_of_mem a ha'))
      | false => exact .ok false

theorem mapM {l : List α} {f : α → Except ε β} (h : ∀ a ∈ l, FailsOnly E (f a)) :
    FailsOnly E (l.mapM f) := by
  induction l with
  | nil => exact .ok []
  | cons a l ih =>
      have htail := ih (fun a' ha' => h a' (List.mem_cons_of_mem a ha'))
      rw [List.mapM_cons]
      exact (h a List.mem_cons_self).bind fun b _ => htail.bind fun bs _ => .ok (b :: bs)

theorem andNotM {x y : Except ε Bool} (hx : FailsOnly E x) (hy : FailsOnly E y) :
    FailsOnly E (Foundations.andNotM x y) := by
  refine hx.bind ?_
  intro b _
  cases b with
  | false => exact .ok false
  | true => exact hy.bind fun c _ => .ok (!c)

end FailsOnly

/-- A loop that collects results answers exactly when every element does. -/
theorem mapM_eq_ok_iff {ε α β : Type} {f : α → Except ε β} {l : List α} {bs : List β} :
    l.mapM f = .ok bs ↔ List.Forall₂ (fun a b => f a = .ok b) l bs := by
  induction l generalizing bs with
  | nil =>
      constructor
      · intro h
        cases h
        exact .nil
      · intro h
        cases h
        rfl
  | cons a l ih =>
      rw [List.mapM_cons]
      constructor
      · intro h
        cases hfa : f a with
        | error e => simp [hfa] at h
        | ok b =>
            cases hl : l.mapM f with
            | error e => simp [hfa, hl] at h
            | ok tail =>
                have hbs : b :: tail = bs := by
                  simpa [hfa, hl, pure, Except.pure] using h
                subst hbs
                exact .cons hfa (ih.mp hl)
      · intro h
        cases h with
        | cons hfa hl => rw [hfa, ih.mpr hl]; rfl

namespace Fallible

variable {ε Call : Type} {Reply : Call → Type} {α β : Type} {answer : ∀ c, Reply c}

/-- A sequence answers exactly when both parts do. -/
theorem eval_bind_eq_ok {x : Fallible ε Call Reply α} {f : α → Fallible ε Call Reply β}
    {b : β} : eval answer (x >>= f) = .ok b ↔
      ∃ a, eval answer x = .ok a ∧ eval answer (f a) = .ok b := by
  rw [eval_bind, bind_eq_ok]

/-- A loop answers exactly when every iteration does. -/
theorem eval_mapM_eq_ok {l : List α} {f : α → Fallible ε Call Reply β} {bs : List β} :
    eval answer (l.mapM f) = .ok bs ↔
      List.Forall₂ (fun a b => eval answer (f a) = .ok b) l bs := by
  rw [eval_mapM, mapM_eq_ok_iff]

end Fallible

/-- What a loop collected, it got from some element. -/
theorem exists_of_forall₂ {α β : Type} {R : α → β → Prop} {l : List α} {bs : List β}
    (h : List.Forall₂ R l bs) {b : β} (hb : b ∈ bs) : ∃ a ∈ l, R a b := by
  induction h with
  | nil => cases hb
  | @cons a b' l bs hab _ ih =>
      rcases List.mem_cons.mp hb with rfl | hb
      · exact ⟨a, List.mem_cons_self, hab⟩
      · obtain ⟨a', ha', hr⟩ := ih hb
        exact ⟨a', List.mem_cons_of_mem a ha', hr⟩

/-- A loop that answers `bs`: what each answer lists can be read off the elements. -/
theorem flatMap_eq_of_forall₂ {α β γ : Type} {R : α → β → Prop} {l : List α}
    {bs : List β} {f : α → List γ} {g : β → List γ} (h : List.Forall₂ R l bs)
    (hR : ∀ a ∈ l, ∀ b, R a b → g b = f a) : bs.flatMap g = l.flatMap f := by
  induction h with
  | nil => rfl
  | @cons a b l bs hab _ ih =>
      have htail := ih (fun a' ha' => hR a' (List.mem_cons_of_mem a ha'))
      rw [List.flatMap_cons, List.flatMap_cons, hR a List.mem_cons_self b hab, htail]

/-- Two loops run over the same elements: if the first answers `bs` and the
second's answer at an element is a function `g` of the first's, the
short-circuit "any" of the second is `bs.any g`. -/
theorem anyM_eq_ok {ε α β : Type} {R : α → β → Prop} {l : List α} {bs : List β}
    {f : α → Except ε Bool} {g : β → Bool} (h : List.Forall₂ R l bs)
    (hf : ∀ a ∈ l, ∀ b, R a b → f a = .ok (g b)) : l.anyM f = .ok (bs.any g) := by
  induction h with
  | nil => rfl
  | @cons a b l bs hab _ ih =>
      have htail := ih (fun a' ha' => hf a' (List.mem_cons_of_mem a ha'))
      have hhead := hf a List.mem_cons_self b hab
      cases hg : g b <;> simp [List.anyM, hhead, hg, htail, pure, Except.pure]

/-- The same for the short-circuit "all". -/
theorem allM_eq_ok {ε α β : Type} {R : α → β → Prop} {l : List α} {bs : List β}
    {f : α → Except ε Bool} {g : β → Bool} (h : List.Forall₂ R l bs)
    (hf : ∀ a ∈ l, ∀ b, R a b → f a = .ok (g b)) : l.allM f = .ok (bs.all g) := by
  induction h with
  | nil => rfl
  | @cons a b l bs hab _ ih =>
      have htail := ih (fun a' ha' => hf a' (List.mem_cons_of_mem a ha'))
      have hhead := hf a List.mem_cons_self b hab
      cases hg : g b <;> simp [List.allM, hhead, hg, htail, pure, Except.pure]

/-- A loop over evaluations that all answer answers. -/
theorem exists_ok_anyM {ε α : Type} {l : List α} {f : α → Except ε Bool}
    (h : ∀ a ∈ l, ∃ b, f a = .ok b) : ∃ b, l.anyM f = .ok b := by
  induction l with
  | nil => exact ⟨false, rfl⟩
  | cons a l ih =>
      obtain ⟨b, hb⟩ := h a List.mem_cons_self
      obtain ⟨b', hb'⟩ := ih (fun a' ha' => h a' (List.mem_cons_of_mem a ha'))
      cases b with
      | true => exact ⟨true, by simp [List.anyM, hb, pure, Except.pure]⟩
      | false => exact ⟨b', by simp [List.anyM, hb, hb']⟩

/-- Over evaluations that both answer, `andNotM` is "first and not second". -/
theorem andNotM_eq_ok {ε : Type} {x y : Except ε Bool} {a b : Bool}
    (hx : x = .ok a) (hy : y = .ok b) : andNotM x y = .ok (a && !b) := by
  subst hx hy
  cases a <;> rfl

end Foundations
