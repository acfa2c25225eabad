import Kraalzibar.Foundations.ShortCircuit

/-!
# Two runs of a fallible evaluation

An evaluation may be run twice, with another budget or with other replies.  Two
relations between the outcomes survive short circuits, errors and negation:

* `Extends x y` — `y` answers whatever `x` answers;
* `Agrees x y` — where both answer, the answers are equal.

The loops of an `Extends` run over one list.  Those of an `Agrees` may run over
lists that only have the same members.
-/

namespace Foundations

/-- Whatever the first evaluation answers, the second answers too. -/
def Extends {ε α : Type} (x y : Except ε α) : Prop :=
  ∀ a, x = .ok a → y = .ok a

namespace Extends

variable {ε α β : Type}

theorem refl (x : Except ε α) : Extends x x := fun _ h => h

theorem error (e : ε) (y : Except ε α) : Extends (.error e) y := nofun

theorem bind {x y : Except ε α} {f g : α → Except ε β} (h : Extends x y)
    (hfg : ∀ a, x = .ok a → Extends (f a) (g a)) : Extends (x >>= f) (y >>= g) := by
  intro b hb
  obtain ⟨a, ha, hfa⟩ := bind_eq_ok.mp hb
  rw [h a ha, ok_bind]
  exact hfg a ha b hfa

theorem anyM {l : List α} {f g : α → Except ε Bool} (h : ∀ a ∈ l, Extends (f a) (g a)) :
    Extends (l.anyM f) (l.anyM g) := by
  induction l with
  | nil => exact .refl _
  | cons a l ih =>
      refine (h a List.mem_cons_self).bind ?_
      intro b _
      cases b with
      | true => exact .refl _
      | false => exact ih (fun a' ha' => h a' (List.mem_cons_of_mem a ha'))

theorem allM {l : List α} {f g : α → Except ε Bool} (h : ∀ a ∈ l, Extends (f a) (g a)) :
    Extends (l.allM f) (l.allM g) := by
  induction l with
  | nil => exact .refl _
  | cons a l ih =>
      refine (h a List.mem_cons_self).bind ?_
      intro b _
      cases b with
      | true => exact ih (fun a' ha' => h a' (List.mem_cons_of_mem a ha'))
      | false => exact .refl _

theorem mapM {l : List α} {f g : α → Except ε β} (h : ∀ a ∈ l, Extends (f a) (g a)) :
    Extends (l.mapM f) (l.mapM g) := by
  induction l with
  | nil => exact .refl _
  | cons a l ih =>
      have htail := ih (fun a' ha' => h a' (List.mem_cons_of_mem a ha'))
      rw [List.mapM_cons, List.mapM_cons]
      exact (h a List.mem_cons_self).bind fun b _ => htail.bind fun bs _ => .refl _

theorem andNotM {x x' y y' : Except ε Bool} (hx : Extends x x') (hy : Extends y y') :
    Extends (Foundations.andNotM x y) (Foundations.andNotM x' y') := by
  refine hx.bind ?_
  intro b _
  cases b with
  | false => exact .refl _
  | true => exact hy.bind fun c _ => .refl _

end Extends

/-- Where both evaluations answer, the answers are equal. -/
def Agrees {ε ε' α : Type} (x : Except ε α) (y : Except ε' α) : Prop :=
  ∀ a b, x = .ok a → y = .ok b → a = b

namespace Agrees

variable {ε ε' α : Type} {x x' : Except ε Bool} {y y' : Except ε' Bool}

/-- Evaluations of truth values agree when they decide one proposition. -/
theorem iff_decides : Agrees x y ↔ ∃ P, Decides x P ∧ Decides y P := by
  constructor
  · intro h
    refine ⟨x = .ok true ∨ y = .ok true, ?_, ?_⟩
    · intro b hx
      refine ⟨fun hb => Or.inl (hx.trans (congrArg _ hb)), ?_⟩
      rintro (hx' | hy)
      · exact Except.ok.inj (hx.symm.trans hx')
      · exact h b true hx hy
    · intro b hy
      refine ⟨fun hb => Or.inr (hy.trans (congrArg _ hb)), ?_⟩
      rintro (hx | hy')
      · exact (h true b hx hy).symm
      · exact Except.ok.inj (hy.symm.trans hy')
  · intro h a b hx hy
    obtain ⟨P, hxP, hyP⟩ := h
    exact Bool.eq_iff_iff.mpr ((hxP a hx).trans (hyP b hy).symm)

theorem decides {P : Prop} (hx : Decides x P) (hy : Decides y P) : Agrees x y :=
  iff_decides.mpr ⟨P, hx, hy⟩

theorem anyM {l l' : List α} {f : α → Except ε Bool} {g : α → Except ε' Bool}
    (hmem : ∀ a, a ∈ l ↔ a ∈ l') (h : ∀ a ∈ l, Agrees (f a) (g a)) :
    Agrees (l.anyM f) (l'.anyM g) := by
  have hchoice : ∀ a, ∃ P : Prop, a ∈ l → Decides (f a) P ∧ Decides (g a) P := by
    intro a
    by_cases ha : a ∈ l
    · obtain ⟨P, hP⟩ := iff_decides.mp (h a ha)
      exact ⟨P, fun _ => hP⟩
    · exact ⟨True, fun ha' => absurd ha' ha⟩
  obtain ⟨P, hP⟩ := Classical.axiomOfChoice hchoice
  refine decides (Decides.anyM fun a ha => (hP a ha).1) ?_
  refine (Decides.anyM fun a ha => (hP a ((hmem a).mpr ha)).2).congr ?_
  simp only [hmem]

theorem allM {l : List α} {f : α → Except ε Bool} {g : α → Except ε' Bool}
    (h : ∀ a ∈ l, Agrees (f a) (g a)) : Agrees (l.allM f) (l.allM g) := by
  induction l with
  | nil =>
      intro a b ha hb
      cases ha
      cases hb
      rfl
  | cons c l ih =>
      intro a b ha hb
      obtain ⟨p, hp, ha⟩ := bind_eq_ok.mp ha
      obtain ⟨q, hq, hb⟩ := bind_eq_ok.mp hb
      obtain rfl := h c List.mem_cons_self p q hp hq
      cases p with
      | true => exact ih (fun a' ha' => h a' (List.mem_cons_of_mem c ha')) a b ha hb
      | false =>
          cases ha
          cases hb
          rfl

theorem andNotM (hx : Agrees x y) (hx' : Agrees x' y') :
    Agrees (Foundations.andNotM x x') (Foundations.andNotM y y') := by
  obtain ⟨P, hxP, hyP⟩ := iff_decides.mp hx
  obtain ⟨Q, hxQ, hyQ⟩ := iff_decides.mp hx'
  exact decides (hxP.andNotM hxQ) (hyP.andNotM hyQ)

end Agrees

end Foundations
