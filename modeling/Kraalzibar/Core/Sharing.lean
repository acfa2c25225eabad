import Kraalzibar.Core.CheckCorrect

/-!
# What new relationships can take away

Relationships that are added give access, and take it away only where a rule subtracts:
if a permission was granted and after some additions is not, an excluded operand that it
depends on has come to hold.

* `Excludes` — the excluded operands of a rule;
* `RuleHolds.of_added` — a rule that holds keeps holding while its excluded operands do not
  come to hold;
* `IsModel.of_added` — the same for the permissions of the model.
-/

namespace Kraalzibar

open Foundations Relation

/-- `minus` is an excluded operand of the rule, under any unions, intersections and bases. -/
inductive Excludes (minus : RewriteRule) : RewriteRule → Prop
  | union {children : List RewriteRule} {c : RewriteRule} (hc : c ∈ children)
      (h : Excludes minus c) : Excludes minus (.union children)
  | intersection {children : List RewriteRule} {c : RewriteRule} (hc : c ∈ children)
      (h : Excludes minus c) : Excludes minus (.intersection children)
  | base {base excluded : RewriteRule} (h : Excludes minus base) :
      Excludes minus (.exclusion base excluded)
  | here (base : RewriteRule) : Excludes minus (.exclusion base minus)

section

variable {schema : Schema} {T T' : List Tuple} {u : SubjectRef}

theorem LeafHolds.of_added (hadded : ∀ t ∈ T, t ∈ T') {o : ObjectRef} {r : String}
    (h : LeafHolds T u o r) : LeafHolds T' u o r := by
  rcases h with hdirect | ⟨X, q, huserset, hmember⟩
  · exact Or.inl (hadded _ hdirect)
  · exact Or.inr ⟨X, q, hadded _ huserset, hadded _ hmember⟩

/-- **One rule.**  It keeps holding when tuples are added, if what it reads keeps holding
and none of its excluded operands comes to hold. -/
theorem RuleHolds.of_added (hadded : ∀ t ∈ T, t ∈ T') {o : ObjectRef} {rule : RewriteRule}
    {A A' P P' N N' : Set VisitKey}
    (harrows : ∀ k, Reads T' o rule k → k ∈ A → k ∈ A')
    (hperms : ∀ k, Reads T' o rule k → k ∈ P → k ∈ P')
    (hexcluded : ∀ minus, Excludes minus rule → RuleHolds schema T' u N' N' N' o minus →
      RuleHolds schema T u N N N o minus)
    (h : RuleHolds schema T u A P N o rule) : RuleHolds schema T' u A' P' N' o rule := by
  induction rule with
  | this n =>
      simp only [RuleHolds] at h ⊢
      exact h.imp (fun hn => ⟨hn.1, hperms _ (.this n) hn.2⟩)
        (fun hleaf => ⟨hleaf.1, hleaf.2.of_added hadded⟩)
  | union children ih =>
      simp only [RuleHolds] at h ⊢
      obtain ⟨c, hc, hholds⟩ := h
      exact ⟨c, hc, ih c hc (fun k hk => harrows k (.union hc hk))
        (fun k hk => hperms k (.union hc hk))
        (fun minus hminus => hexcluded minus (.union hc hminus)) hholds⟩
  | intersection children ih =>
      simp only [RuleHolds] at h ⊢
      intro c hc
      exact ih c hc (fun k hk => harrows k (.intersection hc hk))
        (fun k hk => hperms k (.intersection hc hk))
        (fun minus hminus => hexcluded minus (.intersection hc hminus)) (h c hc)
  | exclusion base minus ihBase _ =>
      simp only [RuleHolds] at h ⊢
      refine ⟨ihBase (fun k hk => harrows k (.base hk)) (fun k hk => hperms k (.base hk))
        (fun m hm => hexcluded m (.base hm)) h.1, fun hminus => h.2 ?_⟩
      exact hexcluded minus (.here base) hminus
  | arrow r p =>
      simp only [RuleHolds] at h ⊢
      obtain ⟨t, ht, ho, hr, hk⟩ := h
      exact ⟨t, hadded t ht, ho, hr, harrows _ (.arrow (hadded t ht) ho hr) hk⟩

/-- An excluded operand that `k` depends on has come to hold at `a`. -/
structure NewlyExcluded (schema : Schema) (T T' : List Tuple) (u : SubjectRef)
    (M M' : Set VisitKey) (k a : VisitKey) (minus : RewriteRule) : Prop where
  reach : ReflTransGen (Depends schema T') k a
  excludes : ∃ rule, schema.Declares a.1 a.2.2 rule ∧ Excludes minus rule
  before : ¬ RuleHolds schema T u M M M ⟨a.1, a.2.1⟩ minus
  after : RuleHolds schema T' u M' M' M' ⟨a.1, a.2.1⟩ minus

/-- **Added tuples revoke only by exclusion.** -/
theorem IsModel.of_added {M M' : Set VisitKey} (hM : IsModel schema T u M)
    (hM' : IsModel schema T' u M') (hadded : ∀ t ∈ T, t ∈ T') {k : VisitKey} (hk : k ∈ M) :
    k ∈ M' ∨ ∃ a minus, NewlyExcluded schema T T' u M M' k a minus := by
  by_contra hlost
  obtain ⟨hnot, hnone⟩ := not_or.mp hlost
  refine hnot (StratifiedOperator.Stable.mem_of_step
    (S := {a | ReflTransGen (Depends schema T') k a}) hM hM' ?_ ReflTransGen.refl hk)
  rintro a hreach ⟨rule, hdecl, hholds⟩
  have hdeps : ∀ k', Reads T' ⟨a.1, a.2.1⟩ rule k' →
      k' ∈ {k' | ReflTransGen (Depends schema T') k k' → k' ∈ M'} → k' ∈ M' :=
    fun k' hread hk' => hk' (hreach.tail ⟨rule, hdecl, hread⟩)
  refine ⟨rule, hdecl, hholds.of_added hadded ?_ hdeps ?_⟩
  · exact fun k' hread hk' => ⟨hdeps k' hread hk'.1, Set.notMem_empty k'⟩
  · intro minus hminus hafter
    by_contra hbefore
    exact hnone ⟨a, minus, hreach, ⟨rule, hdecl, hminus⟩, hbefore, hafter⟩

end

end Kraalzibar
