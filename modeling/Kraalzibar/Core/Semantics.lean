import Kraalzibar.Core.Engine
import Kraalzibar.Core.Schema
import Kraalzibar.Foundations.Stratified
import Mathlib.Data.Set.Finite.Lattice

/-!
# What a permission means

The declarative meaning of a schema over a set of tuples, for one subject.  A
permission of an object is a node `(type, id, permission)`; the rules of the
schema make the nodes a family of recursive definitions with negation, the
negation being the excluded operand of an exclusion.

* `LeafHolds` — a relation's own tuples, through at most one userset;
* `RuleHolds` — the meaning of a rule, given which nodes hold;
* `Reads` / `ReadsExcluded` — the nodes a rule refers to;
* `Stratified` — no reference cycle passes through an excluded operand;
* `IsModel` — the stratified least fixed point; `existsUnique_isModel` says
  that a stratified schema has exactly one.

Nothing here mentions depth, visited sets or evaluation order.
-/

namespace Kraalzibar

open Foundations Relation

variable (schema : Schema) (T : List Tuple) (u : SubjectRef)

/-- The node of permission `name` on object `o`. -/
def nodeOf (o : ObjectRef) (name : String) : VisitKey :=
  (o.objectType, o.objectId, name)

/-- `o#r@u` is stored, or `o#r@X:i#q` is stored and so is `X:i#q@u`. -/
def LeafHolds (o : ObjectRef) (r : String) : Prop :=
  ⟨o, r, u⟩ ∈ T ∨
    ∃ X q, ⟨o, r, SubjectRef.userset X.objectType X.objectId q⟩ ∈ T ∧ ⟨X, q, u⟩ ∈ T

/-- The meaning of a rule on `o`.  `arrows` are the nodes taken to hold at the
end of an arrow, `perms` those named by a permission reference, and `excluded`
those read inside an excluded operand. -/
def RuleHolds (arrows perms excluded : Set VisitKey) (o : ObjectRef) :
    RewriteRule → Prop
  | .this n =>
      (∃ rule, schema.Declares o.objectType n rule) ∧ nodeOf o n ∈ perms ∨
      (¬ ∃ rule, schema.Declares o.objectType n rule) ∧ LeafHolds T u o n
  | .union children =>
      ∃ c, ∃ _ : c ∈ children, RuleHolds arrows perms excluded o c
  | .intersection children =>
      ∀ c, ∀ _ : c ∈ children, RuleHolds arrows perms excluded o c
  | .exclusion base minus =>
      RuleHolds arrows perms excluded o base ∧
        ¬ RuleHolds excluded excluded excluded o minus
  | .arrow r p =>
      ∃ t ∈ T, t.object = o ∧ t.relation = r ∧
        (t.subject.subjectType, t.subject.subjectId, p) ∈ arrows
termination_by rule => sizeOf rule

/-- The nodes a rule on `o` refers to. -/
inductive Reads (o : ObjectRef) : RewriteRule → VisitKey → Prop
  | this (n : String) : Reads o (.this n) (nodeOf o n)
  | arrow {t : Tuple} {r p : String} (ht : t ∈ T) (ho : t.object = o)
      (hr : t.relation = r) :
      Reads o (.arrow r p) (t.subject.subjectType, t.subject.subjectId, p)
  | union {children : List RewriteRule} {c : RewriteRule} {k : VisitKey}
      (hc : c ∈ children) (h : Reads o c k) : Reads o (.union children) k
  | intersection {children : List RewriteRule} {c : RewriteRule} {k : VisitKey}
      (hc : c ∈ children) (h : Reads o c k) : Reads o (.intersection children) k
  | base {base minus : RewriteRule} {k : VisitKey} (h : Reads o base k) :
      Reads o (.exclusion base minus) k
  | excluded {base minus : RewriteRule} {k : VisitKey} (h : Reads o minus k) :
      Reads o (.exclusion base minus) k

/-- The nodes a rule on `o` refers to inside an excluded operand. -/
inductive ReadsExcluded (o : ObjectRef) : RewriteRule → VisitKey → Prop
  | union {children : List RewriteRule} {c : RewriteRule} {k : VisitKey}
      (hc : c ∈ children) (h : ReadsExcluded o c k) :
      ReadsExcluded o (.union children) k
  | intersection {children : List RewriteRule} {c : RewriteRule} {k : VisitKey}
      (hc : c ∈ children) (h : ReadsExcluded o c k) :
      ReadsExcluded o (.intersection children) k
  | base {base minus : RewriteRule} {k : VisitKey} (h : ReadsExcluded o base k) :
      ReadsExcluded o (.exclusion base minus) k
  | excluded {base minus : RewriteRule} {k : VisitKey} (h : Reads T o minus k) :
      ReadsExcluded o (.exclusion base minus) k

variable {T} in
theorem ReadsExcluded.reads {o : ObjectRef} {rule : RewriteRule} {k : VisitKey}
    (h : ReadsExcluded T o rule k) : Reads T o rule k := by
  induction h with
  | union hc _ ih => exact .union hc ih
  | intersection hc _ ih => exact .intersection hc ih
  | base _ ih => exact .base ih
  | excluded h => exact .excluded h

/-- The rule of node `k` refers to node `k'`. -/
def Depends (k k' : VisitKey) : Prop :=
  ∃ rule, schema.Declares k.1 k.2.2 rule ∧ Reads T ⟨k.1, k.2.1⟩ rule k'

/-- The rule of node `k` refers to node `k'` inside an excluded operand. -/
def DependsExcluded (k k' : VisitKey) : Prop :=
  ∃ rule, schema.Declares k.1 k.2.2 rule ∧ ReadsExcluded T ⟨k.1, k.2.1⟩ rule k'

/-- No dependency cycle passes through the excluded operand of an exclusion. -/
def Stratified : Prop :=
  ∀ a k, DependsExcluded schema T a k → ¬ ReflTransGen (Depends schema T) k a

variable {schema T u}

/-- A rule means the same under readings that agree on the nodes it refers to. -/
theorem RuleHolds.congr {o : ObjectRef} {rule : RewriteRule}
    {A A' P P' N N' : Set VisitKey}
    (harrows : ∀ k, Reads T o rule k → (k ∈ A ↔ k ∈ A'))
    (hperms : ∀ k, Reads T o rule k → (k ∈ P ↔ k ∈ P'))
    (hexcluded : ∀ k, ReadsExcluded T o rule k → (k ∈ N ↔ k ∈ N')) :
    RuleHolds schema T u A P N o rule ↔ RuleHolds schema T u A' P' N' o rule := by
  induction rule generalizing A A' P P' with
  | this n => simp only [RuleHolds, hperms _ (.this n)]
  | union children ih =>
      simp only [RuleHolds]
      refine exists_congr fun c => exists_congr fun hc => ?_
      exact ih c hc (fun k hk => harrows k (.union hc hk))
        (fun k hk => hperms k (.union hc hk)) (fun k hk => hexcluded k (.union hc hk))
  | intersection children ih =>
      simp only [RuleHolds]
      refine forall_congr' fun c => forall_congr' fun hc => ?_
      exact ih c hc (fun k hk => harrows k (.intersection hc hk))
        (fun k hk => hperms k (.intersection hc hk))
        (fun k hk => hexcluded k (.intersection hc hk))
  | exclusion base minus ihBase ihMinus =>
      simp only [RuleHolds]
      have hminus : ∀ k, Reads T o minus k → (k ∈ N ↔ k ∈ N') :=
        fun k hk => hexcluded k (.excluded hk)
      exact and_congr
        (ihBase (fun k hk => harrows k (.base hk)) (fun k hk => hperms k (.base hk))
          (fun k hk => hexcluded k (.base hk)))
        (not_congr (ihMinus hminus hminus (fun k hk => hminus k hk.reads)))
  | arrow r p =>
      simp only [RuleHolds]
      constructor
      · intro hparts
        obtain ⟨t, ht, ho, hr, hk⟩ := hparts
        exact ⟨t, ht, ho, hr, (harrows _ (.arrow ht ho hr)).mp hk⟩
      · intro hparts
        obtain ⟨t, ht, ho, hr, hk⟩ := hparts
        exact ⟨t, ht, ho, hr, (harrows _ (.arrow ht ho hr)).mpr hk⟩

/-- A rule that holds keeps holding when more nodes hold outside its excluded
operands. -/
theorem RuleHolds.mono {o : ObjectRef} {rule : RewriteRule}
    {A A' P P' N : Set VisitKey}
    (harrows : ∀ k, Reads T o rule k → k ∈ A → k ∈ A')
    (hperms : ∀ k, Reads T o rule k → k ∈ P → k ∈ P')
    (h : RuleHolds schema T u A P N o rule) :
    RuleHolds schema T u A' P' N o rule := by
  induction rule with
  | this n =>
      simp only [RuleHolds] at h ⊢
      exact h.imp_left (fun hn => ⟨hn.1, hperms _ (.this n) hn.2⟩)
  | union children ih =>
      simp only [RuleHolds] at h ⊢
      obtain ⟨c, hc, hholds⟩ := h
      exact ⟨c, hc, ih c hc (fun k hk => harrows k (.union hc hk))
        (fun k hk => hperms k (.union hc hk)) hholds⟩
  | intersection children ih =>
      simp only [RuleHolds] at h ⊢
      intro c hc
      exact ih c hc (fun k hk => harrows k (.intersection hc hk))
        (fun k hk => hperms k (.intersection hc hk)) (h c hc)
  | exclusion base minus ihBase _ =>
      simp only [RuleHolds] at h ⊢
      exact ⟨ihBase (fun k hk => harrows k (.base hk))
        (fun k hk => hperms k (.base hk)) h.1, h.2⟩
  | arrow r p =>
      simp only [RuleHolds] at h ⊢
      obtain ⟨t, ht, ho, hr, hk⟩ := h
      exact ⟨t, ht, ho, hr, harrows _ (.arrow ht ho hr) hk⟩

variable (schema T u)

/-- The permission definitions of the schema as one recursive family.  `cut` is
a set of nodes that arrows treat as not holding. -/
def cutStep (cut X N : Set VisitKey) : Set VisitKey :=
  {k | ∃ rule, schema.Declares k.1 k.2.2 rule ∧
    RuleHolds schema T u (X \ cut) X N ⟨k.1, k.2.1⟩ rule}

def permissionOperator (cut : Set VisitKey) : StratifiedOperator VisitKey where
  step := cutStep schema T u cut
  dep := Depends schema T
  neg := DependsExcluded schema T
  mono := by
    intro X X' N hX k hparts
    obtain ⟨rule, hdecl, hholds⟩ := hparts
    exact ⟨rule, hdecl, hholds.mono (fun _ _ hk => ⟨hX hk.1, hk.2⟩) (fun _ _ hk => hX hk)⟩
  neg_dep := by
    intro k k' hparts
    obtain ⟨rule, hdecl, hreads⟩ := hparts
    exact ⟨rule, hdecl, hreads.reads⟩
  reads := by
    intro k X X' N N' hpos hneg hparts
    obtain ⟨rule, hdecl, hholds⟩ := hparts
    refine ⟨rule, hdecl, ?_⟩
    have hsame := (RuleHolds.congr (fun _ _ => Iff.rfl) (fun _ _ => Iff.rfl)
      (fun k' hk' => hneg k' ⟨rule, hdecl, hk'⟩)).mp hholds
    exact hsame.mono (fun k' hk' hX => ⟨hpos k' ⟨rule, hdecl, hk'⟩ hX.1, hX.2⟩)
      (fun k' hk' hX => hpos k' ⟨rule, hdecl, hk'⟩ hX)

/-- `M` is the stratified least fixed point of the permission definitions: the
nodes that hold for subject `u` over the tuples `T`. -/
def IsModel (M : Set VisitKey) : Prop :=
  (permissionOperator schema T u ∅).Stable M

variable {schema T u}

/-- In a model a node holds exactly when its rule does. -/
theorem IsModel.mem_iff {M : Set VisitKey} (hM : IsModel schema T u M)
    {k : VisitKey} :
    k ∈ M ↔ ∃ rule, schema.Declares k.1 k.2.2 rule ∧
      RuleHolds schema T u M M M ⟨k.1, k.2.1⟩ rule := by
  have hstep := StratifiedOperator.Stable.mem_iff hM (n := k)
  simpa [permissionOperator, cutStep] using hstep

private theorem reads_finite (o : ObjectRef) (rule : RewriteRule) :
    {k | Reads T o rule k}.Finite := by
  induction rule with
  | this n =>
      refine (Set.finite_singleton (nodeOf o n)).subset ?_
      intro k hk
      cases hk
      rfl
  | union children ih =>
      refine (children.finite_toSet.biUnion (fun c hc => ih c hc)).subset ?_
      intro k hk
      cases hk with
      | union hc h => exact Set.mem_biUnion hc h
  | intersection children ih =>
      refine (children.finite_toSet.biUnion (fun c hc => ih c hc)).subset ?_
      intro k hk
      cases hk with
      | intersection hc h => exact Set.mem_biUnion hc h
  | exclusion base minus ihBase ihMinus =>
      refine (ihBase.union ihMinus).subset ?_
      intro k hk
      cases hk with
      | base h => exact Or.inl h
      | excluded h => exact Or.inr h
  | arrow r p =>
      refine (T.finite_toSet.image
        (fun t => (t.subject.subjectType, t.subject.subjectId, p))).subset ?_
      intro k hk
      cases hk with
      | arrow ht ho hr => exact ⟨_, ht, rfl⟩

private theorem declared_finite (schema : Schema) :
    {rule | ∃ typeName perm, schema.Declares typeName perm rule}.Finite := by
  refine (List.finite_toSet (schema.types.flatMap
    (fun td => td.permissions.map PermissionDef.rule))).subset ?_
  intro rule hparts
  obtain ⟨typeName, perm, td, htd, -, pd, hpd, -, rfl⟩ := hparts
  exact List.mem_flatMap.mpr ⟨td, htd, List.mem_map.mpr ⟨pd, hpd, rfl⟩⟩

/-- What a rule on `o` refers to is about `o` or about a tuple's subject. -/
private theorem Reads.object {o : ObjectRef} {rule : RewriteRule} {k : VisitKey}
    (h : Reads T o rule k) :
    (k.1, k.2.1) = (o.objectType, o.objectId) ∨
      ∃ t ∈ T, (k.1, k.2.1) = (t.subject.subjectType, t.subject.subjectId) := by
  induction h with
  | this n => exact Or.inl rfl
  | arrow ht _ _ => exact Or.inr ⟨_, ht, rfl⟩
  | union _ _ ih => exact ih
  | intersection _ _ ih => exact ih
  | base _ ih => exact ih
  | excluded _ ih => exact ih

/-- A node reaches finitely many others: those of its own object and of the
subjects of tuples. -/
theorem reach_finite (k : VisitKey) :
    {k' | ReflTransGen (Depends schema T) k k'}.Finite := by
  let objects : Set (String × String) :=
    insert (k.1, k.2.1) {s | ∃ t ∈ T, s = (t.subject.subjectType, t.subject.subjectId)}
  have hobjects : objects.Finite := by
    refine Set.Finite.insert _ ((T.finite_toSet.image
      (fun t => (t.subject.subjectType, t.subject.subjectId))).subset ?_)
    intro s hparts
    obtain ⟨t, ht, rfl⟩ := hparts
    exact ⟨t, ht, rfl⟩
  let reads : Set VisitKey := ⋃ rule ∈ {rule | ∃ n p, schema.Declares n p rule},
    ⋃ s ∈ objects, {k' | Reads T ⟨s.1, s.2⟩ rule k'}
  have hreads : reads.Finite :=
    (declared_finite schema).biUnion fun rule _ =>
      hobjects.biUnion fun s _ => reads_finite ⟨s.1, s.2⟩ rule
  refine (hreads.insert k).subset ?_
  intro k' hk'
  have hinv : (k' = k ∨ k' ∈ reads) ∧ (k'.1, k'.2.1) ∈ objects := by
    induction hk' with
    | refl => exact ⟨Or.inl rfl, Set.mem_insert _ _⟩
    | tail _ hstep ih =>
        obtain ⟨rule, hdecl, hread⟩ := hstep
        refine ⟨Or.inr ?_, ?_⟩
        · exact Set.mem_biUnion ⟨_, _, hdecl⟩ (Set.mem_biUnion ih.2 hread)
        · rcases hread.object with heq | ⟨t, ht, heq⟩
          · rw [heq]
            exact ih.2
          · rw [heq]
            exact Set.mem_insert_of_mem _ ⟨t, ht, rfl⟩
  exact hinv.1

/-- **A stratified schema has exactly one model over its tuples.** -/
theorem existsUnique_isModel (hstrat : Stratified schema T) (u : SubjectRef) :
    ∃! M, IsModel schema T u M :=
  StratifiedOperator.existsUnique_stable hstrat reach_finite

end Kraalzibar
