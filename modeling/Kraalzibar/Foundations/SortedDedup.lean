import Mathlib.Data.List.Destutter
import Mathlib.Data.List.Sort

/-!
# Sorting and removing adjacent repetitions

A list that is sorted and then loses adjacent repetitions is strictly sorted, so
it is determined by its members: two lists with the same members sort to the
same list, in whatever way each was produced.

That rests on the order telling different elements apart.  Under an order that
does not, the sort keeps the elements of one rank as they came, and a repetition
is left exactly when an element is met again after a different one of its rank.
-/

namespace Foundations

variable {α : Type}

/-- Removing adjacent repetitions loses no member. -/
@[simp] theorem mem_destutter_ne [DecidableEq α] {l : List α} {x : α} :
    x ∈ l.destutter (· ≠ ·) ↔ x ∈ l := by
  have hcons : ∀ (l : List α) (a : α),
      x ∈ List.destutter' (· ≠ ·) a l ↔ x = a ∨ x ∈ l := by
    intro l
    induction l with
    | nil => simp
    | cons b l ih =>
        intro a
        by_cases hab : a ≠ b
        · rw [List.destutter'_cons_pos _ hab, List.mem_cons, ih, List.mem_cons]
        · rw [List.destutter'_cons_neg _ hab, ih, List.mem_cons]
          have hab : a = b := not_not.mp hab
          rw [hab]
          tauto
  cases l with
  | nil => simp
  | cons a l =>
      rw [List.destutter_cons', hcons, List.mem_cons]

/-- An alternating selection survives the removal of adjacent repetitions. -/
theorem sublist_destutter_ne [DecidableEq α] {c l : List α} (hc : c.IsChain (· ≠ ·))
    (h : c.Sublist l) : c.Sublist (l.destutter (· ≠ ·)) := by
  have hcons : ∀ (l : List α) (x : α) (c : List α), c.IsChain (· ≠ ·) →
      c.Sublist (x :: l) → c.Sublist (List.destutter' (· ≠ ·) x l) := by
    intro l
    induction l with
    | nil =>
        intro x c _ h
        exact h
    | cons b l ih =>
        intro x c hc h
        by_cases hxb : x ≠ b
        · rw [List.destutter'_cons_pos _ hxb]
          cases h with
          | cons _ h => exact (ih b c hc h).cons x
          | cons_cons _ h => exact (ih b _ hc.tail h).cons_cons x
        · rw [List.destutter'_cons_neg _ hxb]
          obtain rfl : x = b := not_not.mp hxb
          refine ih x c hc ?_
          -- of the two equal heads, an alternating selection uses one at most
          cases h with
          | cons _ h => exact h
          | cons_cons _ h =>
              cases h with
              | cons _ h => exact h.cons_cons x
              | cons_cons _ h => exact absurd rfl hc.rel
  cases l with
  | nil => exact h
  | cons x l => exact hcons l x c hc h

/-- **What adjacent removal misses.**  No repetition is left exactly when no
element is met again after a different one. -/
theorem nodup_destutter_ne_iff [DecidableEq α] {l : List α} :
    (l.destutter (· ≠ ·)).Nodup ↔ ∀ a b, a ≠ b → ¬ [a, b, a].Sublist l := by
  constructor
  · intro hnodup a b hab hl
    have halternate : [a, b, a].IsChain (· ≠ ·) := by
      simp [hab, hab.symm]
    have hrepeated : [a, b, a].Nodup :=
      hnodup.sublist (sublist_destutter_ne halternate hl)
    simp at hrepeated
  · intro h
    have hchain := List.isChain_destutter (· ≠ ·) l
    have hsub : (l.destutter (· ≠ ·)).Sublist l := List.destutter_sublist _ l
    revert hchain
    generalize l.destutter (· ≠ ·) = d at hsub
    intro hchain
    induction d with
    | nil => exact List.nodup_nil
    | cons a d ih =>
        refine List.nodup_cons.mpr ⟨fun ha => ?_, ih ((List.sublist_cons_self a d).trans hsub)
          hchain.tail⟩
        cases d with
        | nil => cases ha
        | cons b d =>
            have hab : a ≠ b := hchain.rel
            rcases List.mem_cons.mp ha with heq | ha
            · exact hab heq
            · have hagain : [a, b, a].Sublist (a :: b :: d) :=
                ((List.singleton_sublist.mpr ha).cons_cons b).cons_cons a
              exact h a b hab (hagain.trans hsub)

section Stable

variable {r : α → α → Prop} [DecidableRel r] [IsTrans α r]

/-- The sort leaves the elements of one rank in the order in which they came. -/
theorem filter_insertionSort (l : List α) (x : α) :
    (l.insertionSort r).filter (fun y => decide (r x y ∧ r y x)) =
      l.filter (fun y => decide (r x y ∧ r y x)) := by
  have hrank : (l.filter (fun y => decide (r x y ∧ r y x))).Pairwise r := by
    rw [List.pairwise_iff_forall_sublist]
    intro a b hab
    have ha := List.of_mem_filter (hab.subset (List.mem_cons_self))
    have hb := List.of_mem_filter (hab.subset (List.mem_cons_of_mem a List.mem_cons_self))
    rw [decide_eq_true_eq] at ha hb
    exact Trans.trans ha.2 hb.1
  have hsub := (List.sublist_insertionSort hrank List.filter_sublist).filter
    (fun y => decide (r x y ∧ r y x))
  simp only [List.filter_filter, Bool.and_self] at hsub
  refine (hsub.eq_of_length ?_).symm
  exact ((List.perm_insertionSort r l).filter _).length_eq.symm

variable [Std.Total r]

/-- **What sorting and adjacent removal miss.**  No repetition is left exactly
when no element is met again after a different one of the same rank. -/
theorem nodup_destutter_insertionSort_iff [DecidableEq α] {l : List α} :
    ((l.insertionSort r).destutter (· ≠ ·)).Nodup ↔
      ∀ a b, a ≠ b → r a b → r b a → ¬ [a, b, a].Sublist l := by
  rw [nodup_destutter_ne_iff]
  constructor
  · intro h a b hab hle hge hl
    have hrank : [a, b, a].Pairwise r := by
      simp [hle, hge, refl_of r a]
    exact h a b hab (List.sublist_insertionSort hrank hl)
  · intro h a b hab hl
    have hsorted : [a, b, a].Pairwise r := (List.pairwise_insertionSort r l).sublist hl
    have hle : r a b := List.rel_of_pairwise_cons hsorted List.mem_cons_self
    have hge : r b a := List.rel_of_pairwise_cons hsorted.of_cons List.mem_cons_self
    have hself : r a a := refl_of r a
    refine h a b hab hle hge ?_
    have hrank := hl.filter (fun y => decide (r a y ∧ r y a))
    rw [filter_insertionSort] at hrank
    simp only [List.filter_cons, hle, hge, hself, and_self, decide_true, if_true,
      List.filter_nil] at hrank
    exact hrank.trans List.filter_sublist

end Stable

section Linear

variable [LinearOrder α]

/-- Sort, then remove adjacent repetitions. -/
def sortDedup (l : List α) : List α :=
  (l.insertionSort (· ≤ ·)).destutter (· ≠ ·)

@[simp] theorem mem_sortDedup {l : List α} {x : α} : x ∈ sortDedup l ↔ x ∈ l := by
  simp [sortDedup]

theorem pairwise_sortDedup (l : List α) : (sortDedup l).Pairwise (· < ·) := by
  have hsorted : (sortDedup l).Pairwise (· ≤ ·) :=
    (List.pairwise_insertionSort (· ≤ ·) l).sublist (List.destutter_sublist _ _)
  have hnodup : (sortDedup l).Nodup := by
    unfold sortDedup
    rw [List.Pairwise.destutter_eq_dedup (List.pairwise_insertionSort (· ≤ ·) l)]
    exact List.nodup_dedup _
  exact (hsorted.and hnodup).imp fun h => lt_of_le_of_ne h.1 h.2

/-- A strictly sorted list is determined by its members. -/
theorem eq_sortDedup {l l' : List α} (hl : l.Pairwise (· < ·))
    (hmem : ∀ x, x ∈ l ↔ x ∈ l') : l = sortDedup l' := by
  apply hl.eq_of_mem_iff (pairwise_sortDedup l')
  intro x
  rw [hmem, mem_sortDedup]

end Linear

end Foundations
