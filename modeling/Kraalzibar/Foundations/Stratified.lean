import Mathlib.Data.Set.Card
import Mathlib.Logic.Relation
import Mathlib.Order.CompletePartialOrder
import Mathlib.Order.FixedPoints
import Mathlib.Order.WellFounded

/-!
# Stratified recursive definitions

A family of recursive boolean definitions with negation is an operator
`step X Y`: the nodes whose definition holds when positive references read `X`
and references under a negation read `Y`.  A *stable* set is the least fixed
point of the operator with its own members as the negative reading.

When no reference cycle passes through a negation there is exactly one stable
set (`StratifiedOperator.existsUnique_stable`), the stratified least fixed
point: a node's negative references are strictly below it, and the least fixed
point of the positive part is determined once they are.

`mem_lfp_iff_of_agree_off` is the rule behind cutting cycles in a search: an
operator may ignore a node `k` while it is deciding `k` itself.
-/

namespace Foundations

open Relation

/-- Two monotone operators that agree on every set without `k`, one below the
other, agree on whether `k` is in the least fixed point. -/
theorem mem_lfp_iff_of_agree_off {ν : Type*} {f g : Set ν →o Set ν} {k : ν}
    (hle : ∀ X, g X ⊆ f X) (hagree : ∀ X, k ∉ X → f X ⊆ g X) :
    k ∈ f.lfp ↔ k ∈ g.lfp := by
  constructor
  · intro hk
    by_contra hnot
    have hpre : f g.lfp ≤ g.lfp := (hagree _ hnot).trans (le_of_eq g.map_lfp)
    exact hnot (f.lfp_le hpre hk)
  · intro hk
    have hpre : g f.lfp ≤ f.lfp := (hle _).trans (le_of_eq f.map_lfp)
    exact g.lfp_le hpre hk

/-- A family of definitions over nodes `ν`.  `dep n k` says that `n`'s
definition refers to `k`, `neg n k` that it does so under a negation. -/
structure StratifiedOperator (ν : Type*) where
  step : Set ν → Set ν → Set ν
  dep : ν → ν → Prop
  neg : ν → ν → Prop
  mono : ∀ {X X' Y}, X ⊆ X' → step X Y ⊆ step X' Y
  neg_dep : ∀ {n k}, neg n k → dep n k
  /-- The definition of `n` reads nothing but its references. -/
  reads : ∀ {n X X' Y Y'}, (∀ k, dep n k → k ∈ X → k ∈ X') →
    (∀ k, neg n k → (k ∈ Y ↔ k ∈ Y')) → n ∈ step X Y → n ∈ step X' Y'

namespace StratifiedOperator

variable {ν : Type*} (Γ : StratifiedOperator ν)

/-- The positive part, with the negative reading fixed. -/
def positive (Y : Set ν) : Set ν →o Set ν :=
  ⟨fun X => Γ.step X Y, fun _ _ h => Γ.mono h⟩

/-- `M` is the least fixed point of the operator that reads `M` under
negations. -/
def Stable (M : Set ν) : Prop := (Γ.positive M).lfp = M

/-- `k` can be reached from `n` through references. -/
def Reach : ν → ν → Prop := ReflTransGen Γ.dep

/-- `k` is referred to under a negation by something `n` reaches. -/
def Below (n k : ν) : Prop := ∃ a, Γ.Reach n a ∧ Γ.neg a k

/-- No reference cycle passes through a negation. -/
def Acyclic : Prop := ∀ a k, Γ.neg a k → ¬ Γ.Reach k a

variable {Γ}

theorem Below.reach {n k : ν} (h : Γ.Below n k) : Γ.Reach n k := by
  obtain ⟨a, hna, hak⟩ := h
  exact hna.tail (Γ.neg_dep hak)

theorem Below.trans_reach {n m k : ν} (hnm : Γ.Reach n m) (h : Γ.Below m k) :
    Γ.Below n k := by
  obtain ⟨a, hma, hak⟩ := h
  exact ⟨a, hnm.trans hma, hak⟩

/-- The negative references of what a node reaches form a well-founded
hierarchy. -/
theorem wellFounded_below (hacyclic : Γ.Acyclic)
    (hfinite : ∀ n, {k | Γ.Reach n k}.Finite) :
    WellFounded (fun k n => Γ.Below n k) := by
  refine Subrelation.wf (r := InvImage (· < ·) (fun n => {k | Γ.Below n k}.ncard))
    ?_ (InvImage.wf _ wellFounded_lt)
  intro k n hnk
  have hfin : {j | Γ.Below n j}.Finite :=
    (hfinite n).subset (fun j (hj : Γ.Below n j) => hj.reach)
  refine Set.ncard_lt_ncard ?_ hfin
  refine ⟨fun j (hj : Γ.Below k j) => Below.trans_reach hnk.reach hj, ?_⟩
  intro hsub
  -- `k` is below `n` but not below itself: that would be a negative cycle.
  obtain ⟨a, hka, hak⟩ := hsub hnk
  exact hacyclic a k hak hka

/-- The least fixed points for two negative readings agree at every node of a
reference-closed set on whose negative references the readings agree. -/
theorem lfp_subset_of_agree {S Y Y' : Set ν}
    (hclosed : ∀ n ∈ S, ∀ k, Γ.dep n k → k ∈ S)
    (hagree : ∀ n ∈ S, ∀ k, Γ.neg n k → (k ∈ Y ↔ k ∈ Y')) {n : ν}
    (hn : n ∈ S) (h : n ∈ (Γ.positive Y).lfp) : n ∈ (Γ.positive Y').lfp := by
  have hpre : Γ.positive Y {m | m ∈ S → m ∈ (Γ.positive Y').lfp} ≤
      {m | m ∈ S → m ∈ (Γ.positive Y').lfp} := by
    intro m hm hmS
    rw [← (Γ.positive Y').map_lfp]
    have hpos : ∀ k, Γ.dep m k → k ∈ {j | j ∈ S → j ∈ (Γ.positive Y').lfp} →
        k ∈ (Γ.positive Y').lfp := fun k hdep hk => hk (hclosed m hmS k hdep)
    exact Γ.reads hpos (hagree m hmS) hm
  exact (Γ.positive Y).lfp_le hpre h hn

theorem mem_lfp_congr {n : ν} {Y Y' : Set ν}
    (hagree : ∀ k, Γ.Below n k → (k ∈ Y ↔ k ∈ Y')) :
    n ∈ (Γ.positive Y).lfp ↔ n ∈ (Γ.positive Y').lfp := by
  have hclosed : ∀ m ∈ {m | Γ.Reach n m}, ∀ k, Γ.dep m k → k ∈ {m | Γ.Reach n m} :=
    fun m hm k hk => ReflTransGen.tail hm hk
  have hself : n ∈ {m | Γ.Reach n m} := ReflTransGen.refl
  exact ⟨lfp_subset_of_agree hclosed (fun m hm k hk => hagree k ⟨m, hm, hk⟩) hself,
    lfp_subset_of_agree hclosed (fun m hm k hk => (hagree k ⟨m, hm, hk⟩).symm) hself⟩

/-- A stable set is closed under its own operator, both ways. -/
theorem Stable.mem_iff {M : Set ν} (hM : Γ.Stable M) {n : ν} :
    n ∈ M ↔ n ∈ Γ.step M M := by
  have hfix := (Γ.positive M).map_lfp
  rw [hM] at hfix
  exact (Set.ext_iff.mp hfix n).symm

/-- Two families of definitions: what is stable for the first is stable for the second too,
on any set of nodes where each step of the first is one of the second. -/
theorem Stable.mem_of_step {Γ' : StratifiedOperator ν} {M M' S : Set ν} (hM : Γ.Stable M)
    (hM' : Γ'.Stable M')
    (hstep : ∀ n ∈ S, n ∈ Γ.step {k | k ∈ S → k ∈ M'} M → n ∈ Γ'.step M' M') {n : ν}
    (hn : n ∈ S) (h : n ∈ M) : n ∈ M' := by
  have hpre : Γ.positive M {k | k ∈ S → k ∈ M'} ≤ {k | k ∈ S → k ∈ M'} :=
    fun k hk hkS => hM'.mem_iff.mpr (hstep k hkS hk)
  have hfix : (Γ.positive M).lfp = M := hM
  rw [← hfix] at h
  exact (Γ.positive M).lfp_le hpre h hn

/-- **Stratified definitions have exactly one meaning.** -/
theorem existsUnique_stable (hacyclic : Γ.Acyclic)
    (hfinite : ∀ n, {k | Γ.Reach n k}.Finite) : ∃! M, Γ.Stable M := by
  have hwf := wellFounded_below hacyclic hfinite
  -- The members of the model, from those strictly below.
  let members : ∀ n, (∀ k, Γ.Below n k → Prop) → Prop := fun n below =>
    n ∈ (Γ.positive {k | ∃ h : Γ.Below n k, below k h}).lfp
  let model : ν → Prop := hwf.fix members
  have hmodel : ∀ n, model n ↔
      n ∈ (Γ.positive {k | Γ.Below n k ∧ model k}).lfp := by
    intro n
    have hunfold : model n = members n (fun k _ => model k) := hwf.fix_eq members n
    rw [hunfold]
    simp only [members, exists_prop]
  refine ⟨{n | model n}, ?_, ?_⟩
  · ext n
    show n ∈ (Γ.positive {n | model n}).lfp ↔ model n
    rw [hmodel n]
    exact mem_lfp_congr (fun k hk => by simp [hk])
  · intro M hM
    ext n
    show n ∈ M ↔ model n
    induction n using hwf.induction with
    | _ n ih =>
      rw [hmodel n]
      have hstable : n ∈ M ↔ n ∈ (Γ.positive M).lfp := by rw [hM]
      rw [hstable]
      exact mem_lfp_congr (fun k hk => by simp [hk, ih k hk])

end StratifiedOperator

end Foundations
