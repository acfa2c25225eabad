import Kraalzibar.Core.CheckCorrect
import Mathlib.Data.List.Chain

/-!
# Userset membership

A userset `X:i#q` stands for every subject that has `q` on `X:i`, and a userset
may itself be a stored member of another.  `InUserset` is membership through
any number of such steps.  `evaluate_this` reads one step: the direct members
of the usersets stored on the relation, and nothing behind them.

* `check_this_iff_leaf` — what the engine answers for a permission that names a
  relation;
* `check_eq_inUserset_iff` — the engine computes membership exactly when no
  subject is a member only behind the first userset;
* `nested_group_denied` — a group inside a group is denied.
-/

namespace Kraalzibar

open Foundations Relation

/-- `u` is in `X:i#q`.  `holds` says on which objects a permission's rule holds
for `u`; the results below are for every reading of it. -/
inductive InUserset (schema : Schema) (T : List Tuple) (holds : VisitKey → Prop)
    (u : SubjectRef) : ObjectRef → String → Prop
  | direct {X : ObjectRef} {q : String} (h : ⟨X, q, u⟩ ∈ T) :
      InUserset schema T holds u X q
  | nested {X Y : ObjectRef} {q w : String}
      (h : ⟨X, q, SubjectRef.userset Y.objectType Y.objectId w⟩ ∈ T)
      (hY : InUserset schema T holds u Y w) : InUserset schema T holds u X q
  | permission {X : ObjectRef} {q : String}
      (hdecl : ∃ rule, schema.Declares X.objectType q rule)
      (hholds : holds (nodeOf X q)) : InUserset schema T holds u X q

/-- The userset `b` is a stored member of the userset `a`. -/
def UsersetRef (T : List Tuple) (a b : ObjectRef × String) : Prop :=
  ⟨a.1, a.2, SubjectRef.userset b.1.objectType b.1.objectId b.2⟩ ∈ T

/-- No userset contains itself. -/
def UsersetsAcyclic (T : List Tuple) : Prop :=
  ∀ a, ¬ TransGen (UsersetRef T) a a

/-- No chain of userset references has more than `n` steps. -/
def NestsWithin (T : List Tuple) (n : Nat) : Prop :=
  ∀ chain : List (ObjectRef × String), chain.IsChain (UsersetRef T) →
    chain.length ≤ n + 1

/-- `u` is in `Y:j#w` through a further userset, or because `w` is a permission
that holds for `u`. -/
def InBehind (schema : Schema) (T : List Tuple) (holds : VisitKey → Prop)
    (u : SubjectRef) (Y : ObjectRef) (w : String) : Prop :=
  (∃ Z v, ⟨Y, w, SubjectRef.userset Z.objectType Z.objectId v⟩ ∈ T ∧
    InUserset schema T holds u Z v) ∨
  (∃ rule, schema.Declares Y.objectType w rule) ∧ holds (nodeOf Y w)

variable {schema : Schema} {T : List Tuple} {holds : VisitKey → Prop} {u : SubjectRef}

theorem inUserset_iff {X : ObjectRef} {q : String} :
    InUserset schema T holds u X q ↔
      ⟨X, q, u⟩ ∈ T ∨ InBehind schema T holds u X q := by
  constructor
  · intro h
    cases h with
    | direct h => exact Or.inl h
    | nested h hY => exact Or.inr (Or.inl ⟨_, _, h, hY⟩)
    | permission hdecl hholds => exact Or.inr (Or.inr ⟨hdecl, hholds⟩)
  · intro hcase
    rcases hcase with h | ⟨Y, w, h, hY⟩ | ⟨hdecl, hholds⟩
    · exact .direct h
    · exact .nested h hY
    · exact .permission hdecl hholds

/-- Membership in a relation that no permission shadows is the leaf the engine
reads, or membership behind one of the relation's usersets. -/
theorem inUserset_iff_leaf_or_behind {o : ObjectRef} {r : String}
    (hunshadowed : ¬ ∃ rule, schema.Declares o.objectType r rule) :
    InUserset schema T holds u o r ↔ LeafHolds T u o r ∨
      ∃ Y w, ⟨o, r, SubjectRef.userset Y.objectType Y.objectId w⟩ ∈ T ∧
        InBehind schema T holds u Y w := by
  rw [inUserset_iff]
  constructor
  · intro hcase
    rcases hcase with h | ⟨Y, w, h, hY⟩ | ⟨hdecl, -⟩
    · exact Or.inl (Or.inl h)
    · rcases inUserset_iff.mp hY with hdirect | hbehind
      · exact Or.inl (Or.inr ⟨Y, w, h, hdirect⟩)
      · exact Or.inr ⟨Y, w, h, hbehind⟩
    · exact absurd hdecl hunshadowed
  · intro hcase
    rcases hcase with (h | ⟨Y, w, h, hdirect⟩) | ⟨Y, w, h, hbehind⟩
    · exact Or.inl h
    · exact Or.inr (Or.inl ⟨Y, w, h, .direct hdirect⟩)
    · exact Or.inr (Or.inl ⟨Y, w, h, inUserset_iff.mpr (Or.inr hbehind)⟩)

/-- A permission whose rule names a relation is answered from the relation's leaf,
at every depth limit. -/
theorem check_this_of_get (config : EngineConfig) {reader : TupleReader}
    {request : CheckRequest} {r : String} {td : TypeDefinition} {pd : PermissionDef}
    {rd : RelationDef} (hreader : Serves reader request.snapshot T)
    (htype : schema.getType request.objectType = some td)
    (hperm : td.getPermission request.permission = some pd) (hrule : pd.rule = .this r)
    (hunshadowed : td.getPermission r = none) (hrel : td.getRelation r = some rd) :
    ∃ allowed, Fallible.eval reader (CheckEngine.check ⟨schema, config⟩ request) =
        .ok ⟨allowed⟩ ∧
      (allowed = true ↔ LeafHolds T
        (SubjectRef.direct request.subjectType request.subjectId)
        ⟨request.objectType, request.objectId⟩ r) := by
  have hloop : Fallible.eval reader (CheckEngine.evaluateRule ⟨schema, config⟩ pd.rule
      request.objectType request.objectId request.context) =
      Fallible.eval reader (CheckEngine.relationLoop r request.objectType
        request.objectId request.context) := by
    rw [CheckEngine.evaluateRule_eq, hrule]
    simp [CheckEngine.ruleBody, CheckEngine.withinDepth, CheckRequest.context,
      CheckEngine.evaluateThis, htype, hunshadowed, hrel]
  have hctx : CheckEngine.ContextFor request.subjectType request.subjectId
      request.snapshot request.context := ⟨rfl, rfl, rfl⟩
  have hdecides := CheckEngine.relationLoop_decides hreader hctx
    ⟨request.objectType, request.objectId⟩ r
  obtain ⟨allowed, hallowed⟩ : ∃ b, Fallible.eval reader (CheckEngine.relationLoop r
      request.objectType request.objectId request.context) = .ok b :=
    CheckEngine.relationLoop_answers hreader rfl
  refine ⟨allowed, ?_, hdecides allowed hallowed⟩
  rw [CheckEngine.eval_check htype hperm, hloop, hallowed]
  rfl

/-- With unique names, declarations say the same as the lookups. -/
theorem check_this_iff_leaf (hunique : schema.NamesUnique) (config : EngineConfig)
    {reader : TupleReader} {request : CheckRequest} {r : String}
    (hreader : Serves reader request.snapshot T)
    (hperm : schema.Declares request.objectType request.permission (.this r))
    (hrel : schema.DeclaresRelation request.objectType r)
    (hunshadowed : ¬ ∃ rule, schema.Declares request.objectType r rule) :
    ∃ allowed, Fallible.eval reader (CheckEngine.check ⟨schema, config⟩ request) =
        .ok ⟨allowed⟩ ∧
      (allowed = true ↔ LeafHolds T
        (SubjectRef.direct request.subjectType request.subjectId)
        ⟨request.objectType, request.objectId⟩ r) := by
  obtain ⟨td, pd, htype, hget, hrule⟩ := hperm.get hunique
  obtain ⟨td', rd, htype', hgetRel⟩ := hrel.get hunique
  obtain rfl : td = td' := Option.some.inj (htype.symm.trans htype')
  have hnoPerm : td.getPermission r = none := by
    cases hfind : td.getPermission r with
    | none => rfl
    | some pd' => exact absurd ⟨_, Schema.declares_of_get htype hfind⟩ hunshadowed
  exact check_this_of_get config hreader htype hget hrule hnoPerm hgetRel

/-- **When the engine computes membership.**  For a permission that names an
unshadowed relation `r`, the check answers `true` exactly for the members of
`o#r` if and only if every subject that is in a userset of `o#r` only behind it
is also granted by the leaf. -/
theorem check_eq_inUserset_iff (schema : Schema) (hunique : schema.NamesUnique)
    (config : EngineConfig) (T : List Tuple) (holds : VisitKey → Prop)
    (reader : TupleReader) (request : CheckRequest) (r : String)
    (hreader : Serves reader request.snapshot T)
    (hperm : schema.Declares request.objectType request.permission (.this r))
    (hrel : schema.DeclaresRelation request.objectType r)
    (hunshadowed : ¬ ∃ rule, schema.Declares request.objectType r rule) :
    (Fallible.eval reader (CheckEngine.check ⟨schema, config⟩ request) = .ok ⟨true⟩ ↔
      InUserset schema T holds (.direct request.subjectType request.subjectId)
        ⟨request.objectType, request.objectId⟩ r) ↔
    (∀ Y w, ⟨⟨request.objectType, request.objectId⟩, r,
        SubjectRef.userset Y.objectType Y.objectId w⟩ ∈ T →
      InBehind schema T holds (.direct request.subjectType request.subjectId) Y w →
      LeafHolds T (.direct request.subjectType request.subjectId)
        ⟨request.objectType, request.objectId⟩ r) := by
  obtain ⟨allowed, hcheck, hleaf⟩ :=
    check_this_iff_leaf hunique config hreader hperm hrel hunshadowed
  have htrue : Fallible.eval reader (CheckEngine.check ⟨schema, config⟩ request) =
      .ok ⟨true⟩ ↔ LeafHolds T (.direct request.subjectType request.subjectId)
        ⟨request.objectType, request.objectId⟩ r := by
    rw [hcheck, ← hleaf]
    simp
  rw [htrue, inUserset_iff_leaf_or_behind hunshadowed]
  constructor
  · intro hiff Y w hstored hbehind
    exact hiff.mpr (Or.inr ⟨Y, w, hstored, hbehind⟩)
  · intro hcover
    refine ⟨Or.inl, ?_⟩
    intro hcase
    rcases hcase with h | ⟨Y, w, hstored, hbehind⟩
    · exact h
    · exact hcover Y w hstored hbehind

/-- Documents shared with groups, where a group may contain a group:
`definition group { relation member: user | group#member }` and
`definition document { relation viewer: user | group#member permission view = viewer }`. -/
def groupSchema : Schema where
  types :=
    [{ name := "user", relations := [], permissions := [] },
     { name := "group"
       relations := [⟨"member", [⟨"user", none⟩, ⟨"group", some "member"⟩]⟩]
       permissions := [] },
     { name := "document"
       relations := [⟨"viewer", [⟨"user", none⟩, ⟨"group", some "member"⟩]⟩]
       permissions := [⟨"view", .this "viewer"⟩] }]

/-- `eng` may view the document, bob is in `eng`, and `core`, with alice in it,
is a group inside `eng`. -/
def groupTuples : List Tuple :=
  [⟨⟨"document", "readme"⟩, "viewer", .userset "group" "eng" "member"⟩,
   ⟨⟨"group", "eng"⟩, "member", .direct "user" "bob"⟩,
   ⟨⟨"group", "eng"⟩, "member", .userset "group" "core" "member"⟩,
   ⟨⟨"group", "core"⟩, "member", .direct "user" "alice"⟩]

private theorem groupSchema_declares :
    groupSchema.NamesUnique ∧ groupSchema.Declares "document" "view" (.this "viewer") ∧
      groupSchema.DeclaresRelation "document" "viewer" ∧
      ¬ ∃ rule, groupSchema.Declares "document" "viewer" rule := by
  have hmem : ∀ td ∈ groupSchema.types, td.name = "document" →
      td.permissions = [⟨"view", .this "viewer"⟩] := by
    intro td htd hname
    simp only [groupSchema, List.mem_cons, List.not_mem_nil, or_false] at htd
    rcases htd with rfl | rfl | rfl
    · simp at hname
    · simp at hname
    · rfl
  refine ⟨⟨by decide, by decide, by decide⟩, ?_, ?_, ?_⟩
  · exact ⟨_, .tail _ (.tail _ (.head _)), rfl, _, .head _, rfl, rfl⟩
  · exact ⟨_, .tail _ (.tail _ (.head _)), rfl, _, .head _, rfl⟩
  · intro hparts
    obtain ⟨rule, td, htd, hname, pd, hpd, hpname, -⟩ := hparts
    rw [hmem td htd hname, List.mem_singleton] at hpd
    subst hpd
    simp at hpname

/-- Bob is one group away: the engine grants exactly the membership. -/
theorem check_eq_inUserset_bob :
    Fallible.eval (listReader groupTuples) (CheckEngine.check ⟨groupSchema, {}⟩
        ⟨"document", "readme", "view", "user", "bob", none⟩) = .ok ⟨true⟩ ↔
      InUserset groupSchema groupTuples (fun _ => False) (.direct "user" "bob")
        ⟨"document", "readme"⟩ "viewer" :=
  (check_eq_inUserset_iff groupSchema groupSchema_declares.1 {} groupTuples _
    (listReader groupTuples) ⟨"document", "readme", "view", "user", "bob", none⟩ "viewer"
    (listReader_serves _ _) groupSchema_declares.2.1 groupSchema_declares.2.2.1
    groupSchema_declares.2.2.2).mpr
      (fun _ _ _ _ => Or.inr ⟨⟨"group", "eng"⟩, "member", by decide, by decide⟩)

/-- Userset references of the example lead from the document to `eng` to `core`. -/
private def groupRank (a : ObjectRef × String) : Nat :=
  if a.1.objectType = "document" then 2 else if a.1.objectId = "eng" then 1 else 0

private theorem groupRank_lt {a b : ObjectRef × String}
    (h : UsersetRef groupTuples a b) : groupRank b < groupRank a := by
  obtain ⟨⟨at', ai⟩, aq⟩ := a
  obtain ⟨⟨bt, bi⟩, bq⟩ := b
  simp only [UsersetRef, groupTuples, SubjectRef.direct, SubjectRef.userset,
    List.mem_cons, Tuple.mk.injEq, ObjectRef.mk.injEq, SubjectRef.mk.injEq,
    Option.some.injEq, reduceCtorEq, and_false, List.not_mem_nil, or_false,
    false_or] at h
  rcases h with ⟨⟨rfl, rfl⟩, rfl, rfl, rfl, rfl⟩ | ⟨⟨rfl, rfl⟩, rfl, rfl, rfl, rfl⟩ <;>
    decide

private theorem length_le_of_rank {α : Type} {R : α → α → Prop} {rank : α → Nat}
    (hrank : ∀ a b, R a b → rank b < rank a) {a : α} {l : List α}
    (h : (a :: l).IsChain R) : l.length ≤ rank a := by
  induction l generalizing a with
  | nil => exact Nat.zero_le _
  | cons b l ih =>
      rw [List.isChain_cons_cons] at h
      have hlt := hrank a b h.1
      have htail := ih h.2
      simp only [List.length_cons]
      omega

/-- **A group inside a group is denied.**  Alice is in `core`, which is in
`eng`, which may view the document.  The references are acyclic and two steps
long, well within the default depth limit, so she is a viewer by any reading of
membership; the check answers `false`. -/
theorem nested_group_denied :
    UsersetsAcyclic groupTuples ∧ NestsWithin groupTuples (EngineConfig.maxDepth {}) ∧
    groupSchema.NamesUnique ∧ groupSchema.Declares "document" "view" (.this "viewer") ∧
    groupSchema.DeclaresRelation "document" "viewer" ∧
    (¬ ∃ rule, groupSchema.Declares "document" "viewer" rule) ∧
    (∀ holds, InUserset groupSchema groupTuples holds (.direct "user" "alice")
      ⟨"document", "readme"⟩ "viewer") ∧
    Fallible.eval (listReader groupTuples) (CheckEngine.check ⟨groupSchema, {}⟩
      ⟨"document", "readme", "view", "user", "alice", none⟩) = .ok ⟨false⟩ := by
  refine ⟨?_, ?_, groupSchema_declares.1, groupSchema_declares.2.1,
    groupSchema_declares.2.2.1, groupSchema_declares.2.2.2, ?_, by decide +kernel⟩
  · intro a hcycle
    have hlt : ∀ {a b}, TransGen (UsersetRef groupTuples) a b →
        groupRank b < groupRank a := by
      intro a b h
      induction h with
      | single h => exact groupRank_lt h
      | tail _ h ih => exact (groupRank_lt h).trans ih
    exact lt_irrefl _ (hlt hcycle)
  · intro chain hchain
    cases chain with
    | nil => exact Nat.zero_le _
    | cons a l =>
        have hlen : l.length ≤ groupRank a :=
          length_le_of_rank (fun x y (h : UsersetRef groupTuples x y) => groupRank_lt h)
            hchain
        have hrank : groupRank a ≤ 2 := by
          unfold groupRank
          split
          · exact le_rfl
          · split <;> omega
        have hmax : EngineConfig.maxDepth {} = 6 := rfl
        simp only [List.length_cons]
        omega
  · intro holds
    exact .nested (Y := ⟨"group", "eng"⟩) (w := "member") (by decide)
      (.nested (Y := ⟨"group", "core"⟩) (w := "member") (by decide) (.direct (by decide)))

end Kraalzibar
