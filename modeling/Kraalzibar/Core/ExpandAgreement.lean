import Kraalzibar.Core.Check
import Kraalzibar.Core.Expand

/-!
# Expand and check agree

The two engines are separate traversals of the same rules.  Whenever the
expansion succeeds, the check of every direct subject succeeds too, and its
answer is the subject's membership in the expanded tree: the check can only
skip work that the expansion did, and both cut the same arrow targets.
-/

namespace Kraalzibar

open Foundations

/-- The check context that asks about one subject where the expansion stands. -/
def ExpandContext.forSubject (ctx : ExpandContext) (subjectType subjectId : String) :
    CheckContext :=
  { subjectType, subjectId, snapshot := ctx.snapshot, depth := ctx.depth,
    visited := ctx.visited }

@[simp] theorem ExpandContext.forSubject_snapshot (ctx : ExpandContext)
    (subjectType subjectId : String) :
    (ctx.forSubject subjectType subjectId).snapshot = ctx.snapshot := rfl

@[simp] theorem ExpandContext.forSubject_visited (ctx : ExpandContext)
    (subjectType subjectId : String) :
    (ctx.forSubject subjectType subjectId).visited = ctx.visited := rfl

namespace ExpandEngine

variable {engine : ExpandEngine} {T : List Tuple} {reader : TupleReader}
variable {snapshot : Option SnapshotToken}

/-- The check engine over the same schema and limits. -/
def toCheck (engine : ExpandEngine) : CheckEngine :=
  { schema := engine.schema, config := engine.config }

/-- Wherever `next` expands to a tree, `check` answers with membership in it. -/
def Agree (reader : TupleReader) (snapshot : Option SnapshotToken)
    (subjectType subjectId : String) (next : Expander)
    (check : CheckEngine.Evaluator) : Prop :=
  ∀ rule objectType objectId ctx tree, ctx.snapshot = snapshot →
    Fallible.eval reader (next rule objectType objectId ctx) = .ok tree →
    Fallible.eval reader
      (check rule objectType objectId (ctx.forSubject subjectType subjectId)) =
        .ok (tree.member subjectType subjectId)

variable (subjectType subjectId : String)

/-- The leaves one tuple adds grant the subject exactly when the check of that
tuple does. -/
theorem evaluateTuple_of_expandTuple (hreader : ReadsFrom reader snapshot T)
    {ctx : ExpandContext} (hctx : ctx.snapshot = snapshot) {t : Tuple}
    {leaves : List ExpandTree}
    (h : Fallible.eval reader (expandTuple ctx t) = .ok leaves) :
    Fallible.eval reader
      (CheckEngine.evaluateTuple (ctx.forSubject subjectType subjectId) t) =
        .ok (leaves.any (ExpandTree.member subjectType subjectId)) := by
  obtain ⟨object, relation, st, si, sr⟩ := t
  rcases expandTuple_eq_ok.mp h with ⟨hdirect, rfl⟩ | ⟨q, members, huserset, hread, rfl⟩
  · obtain rfl : sr = none := hdirect
    simp [CheckEngine.evaluateTuple, ExpandContext.forSubject, ExpandTree.member,
      SubjectRef.direct, Bool.decide_and]
    rfl
  · obtain rfl : sr = some q := huserset
    have hread : reader ⟨relationFilter st si q, snapshot⟩ = .ok members := hctx ▸ hread
    obtain ⟨granting, hgranting⟩ :
        ∃ granting, reader ⟨usersetFilter st si q subjectType subjectId,
          snapshot⟩ = .ok granting := hreader.uniform hread
    have hcheck : Fallible.eval reader (CheckEngine.evaluateTuple
        (ctx.forSubject subjectType subjectId) ⟨object, relation, st, si, some q⟩) =
        .ok (!granting.isEmpty) := by
      simp only [CheckEngine.evaluateTuple, ExpandContext.forSubject, hctx,
        Fallible.eval_bind, eval_readTuples, hgranting, ok_bind,
        Fallible.eval_pure]
    rw [hcheck]
    congr 1
    rw [Bool.eq_iff_iff, List.any_eq_true]
    have hne : (!granting.isEmpty) = true ↔ ∃ t, t ∈ granting := by
      cases granting <;> simp
    rw [hne]
    simp only [hreader.mem hgranting, usersetFilter_matches, exists_eq_right]
    constructor
    · intro hstored
      refine ⟨.leaf (.direct subjectType subjectId),
        List.mem_map.mpr ⟨_, (hreader.mem hread _).mpr ⟨hstored, ?_⟩, rfl⟩, ?_⟩
      · exact (relationFilter_matches ..).mpr ⟨rfl, rfl⟩
      · simp [ExpandTree.member]
    · intro hparts
      obtain ⟨leaf, hleaf, hmember⟩ := hparts
      obtain ⟨⟨o, r, s⟩, hut, rfl⟩ := List.mem_map.mp hleaf
      obtain ⟨hstored, hmatch⟩ := (hreader.mem hread _).mp hut
      obtain ⟨rfl, rfl⟩ := (relationFilter_matches ..).mp hmatch
      obtain rfl : s = SubjectRef.direct subjectType subjectId := by
        simpa [ExpandTree.member] using hmember
      exact hstored

/-- A stored relation expands to a node that grants exactly the subjects its
check grants. -/
theorem relationLoop_of_expandRelation (hreader : ReadsFrom reader snapshot T)
    {ctx : ExpandContext} (hctx : ctx.snapshot = snapshot)
    {name objectType objectId : String} {tree : ExpandTree}
    (h : Fallible.eval reader (expandRelation name objectType objectId ctx) = .ok tree) :
    Fallible.eval reader (CheckEngine.relationLoop name objectType objectId
      (ctx.forSubject subjectType subjectId)) =
        .ok (tree.member subjectType subjectId) := by
  obtain ⟨tuples, groups, hread, hgroups, rfl⟩ := expandRelation_eq_ok.mp h
  rw [hctx] at hread
  simp only [CheckEngine.relationLoop, ExpandContext.forSubject_snapshot, hctx,
    Fallible.eval_bind, eval_readTuples, hread, ok_bind, Fallible.eval_anyM,
    ExpandTree.member, ExpandTree.memberAny_eq, List.any_flatten]
  refine anyM_eq_ok hgroups ?_
  intro t _ leaves ht
  exact evaluateTuple_of_expandTuple subjectType subjectId hreader hctx ht

variable {subjectType subjectId}

/-- The child one arrow target adds grants the subject exactly when the check
of that target does. -/
theorem evaluateTarget_of_expandTarget {next : Expander}
    {check : CheckEngine.Evaluator}
    (hnext : Agree reader snapshot subjectType subjectId next check)
    {ctx : ExpandContext} (hctx : ctx.snapshot = snapshot) {perm : String}
    {t : Tuple} {child : Option ExpandTree}
    (h : Fallible.eval reader (engine.expandTarget next perm ctx t) = .ok child) :
    Fallible.eval reader (engine.toCheck.evaluateTarget check perm
      (ctx.forSubject subjectType subjectId) t) =
        .ok (child.any (ExpandTree.member subjectType subjectId)) := by
  rcases expandTarget_of_ok h with
    ⟨hvisited, rfl⟩ | ⟨hfresh, td, pd, tree, htype, hperm, htree, rfl⟩
  · simp [CheckEngine.evaluateTarget, hvisited]
  · simp only [CheckEngine.evaluateTarget, ExpandContext.forSubject_visited, hfresh,
      if_false, toCheck, htype, hperm, Option.any_some]
    refine hnext _ _ _ { ctx with depth := ctx.depth + 1, visited := _ } _ ?_ htree
    exact hctx

/-- **One rule.**  If the deeper calls agree, so do the bodies of a rule. -/
theorem ruleBody_agree (hreader : ReadsFrom reader snapshot T)
    {next : Expander} {check : CheckEngine.Evaluator}
    (hnext : Agree reader snapshot subjectType subjectId next check)
    {objectType objectId : String} {ctx : ExpandContext}
    (hctx : ctx.snapshot = snapshot) {rule : RewriteRule} {tree : ExpandTree}
    (h : Fallible.eval reader (engine.ruleBody next objectType objectId ctx rule) =
      .ok tree) :
    Fallible.eval reader (engine.toCheck.ruleBody check objectType objectId
      (ctx.forSubject subjectType subjectId) rule) =
        .ok (tree.member subjectType subjectId) := by
  -- The expansion answered, so the depth limit is not reached, by the check either.
  have hcheck : ctx.depth ≤ engine.config.maxDepth → ∀ x,
      engine.toCheck.withinDepth (ctx.forSubject subjectType subjectId) x = x := by
    intro hdepth x
    exact if_neg (Nat.not_lt_of_le hdepth)
  induction rule generalizing tree with
  | this name =>
      obtain ⟨hdepth, h⟩ := withinDepth_eq_ok.mp h
      rw [CheckEngine.ruleBody, hcheck hdepth]
      rcases expandThis_of_ok h with
        ⟨td, pd, htype, hperm, h⟩ | ⟨td, rd, htype, hperm, hrel, h⟩
      · simp only [CheckEngine.evaluateThis, toCheck, htype, hperm]
        exact hnext _ _ _ { ctx with depth := ctx.depth + 1 } _ hctx h
      · simp only [CheckEngine.evaluateThis, toCheck, htype, hperm, hrel]
        exact relationLoop_of_expandRelation subjectType subjectId hreader hctx h
  | union children ih =>
      obtain ⟨hdepth, trees, htrees, rfl⟩ := union_eq_ok.mp h
      rw [CheckEngine.ruleBody, hcheck hdepth, CheckEngine.unionLoop_eq,
        Fallible.eval_anyM, ExpandTree.member, ExpandTree.memberAny_eq]
      exact anyM_eq_ok htrees fun c hc tree htree => ih c hc htree
  | intersection children ih =>
      obtain ⟨hdepth, trees, htrees, rfl⟩ := intersection_eq_ok.mp h
      rw [CheckEngine.ruleBody, hcheck hdepth, CheckEngine.intersectionLoop_eq,
        Fallible.eval_allM, ExpandTree.member, ExpandTree.memberAll_eq]
      exact allM_eq_ok htrees fun c hc tree htree => ih c hc htree
  | exclusion base excluded ihBase ihExcluded =>
      obtain ⟨hdepth, baseTree, excludedTree, hbase, hexcluded, rfl⟩ :=
        exclusion_eq_ok.mp h
      rw [CheckEngine.ruleBody, hcheck hdepth, Fallible.eval_andNotM, ExpandTree.member]
      exact andNotM_eq_ok (ihBase hbase) (ihExcluded hexcluded)
  | arrow rel perm =>
      obtain ⟨hdepth, tuples, trees, hread, htrees, rfl⟩ := arrow_eq_ok.mp h
      rw [hctx] at hread
      rw [CheckEngine.ruleBody, hcheck hdepth]
      simp only [CheckEngine.evaluateArrow, ExpandContext.forSubject_snapshot, hctx,
        Fallible.eval_bind, eval_readTuples, hread, ok_bind, Fallible.eval_anyM,
        ExpandTree.member, ExpandTree.memberAny_eq, List.any_filterMap]
      refine anyM_eq_ok htrees ?_
      intro t _ child hchild
      rw [evaluateTarget_of_expandTarget hnext hctx hchild]
      cases child <;> rfl

/-- **Every depth.**  With the same number of levels left, the engines agree. -/
theorem expandWithin_agree (hreader : ReadsFrom reader snapshot T) (remaining : Nat) :
    Agree reader snapshot subjectType subjectId (engine.expandWithin remaining)
      (engine.toCheck.evaluateWithin remaining) := by
  induction remaining with
  | zero =>
      intro rule objectType objectId ctx tree _ h
      cases h
  | succ n ih =>
      intro rule objectType objectId ctx tree hctx h
      exact ruleBody_agree hreader ih hctx h

/-- **Expand and check agree.**  If the expansion of a permission succeeds, the
check of every direct subject succeeds with its membership in the tree. -/
theorem check_of_expand {request : ExpandRequest} {tree : ExpandTree}
    (hreader : ReadsFrom reader request.snapshot T)
    (h : Fallible.eval reader (engine.expand request) = .ok tree)
    (subjectType subjectId : String) :
    Fallible.eval reader (engine.toCheck.check
      { objectType := request.objectType, objectId := request.objectId,
        permission := request.permission, subjectType, subjectId,
        snapshot := request.snapshot }) =
      .ok ⟨tree.member subjectType subjectId⟩ := by
  obtain ⟨td, pd, htype, hperm, heval⟩ := declared_of_expand h
  have hrule : Fallible.eval reader (engine.toCheck.evaluateRule pd.rule
      request.objectType request.objectId
      (ExpandContext.forSubject ⟨request.snapshot, 0, []⟩ subjectType subjectId)) =
        .ok (tree.member subjectType subjectId) :=
    expandWithin_agree hreader _ _ _ _ _ _ rfl heval
  rw [CheckEngine.eval_check htype hperm]
  exact congrArg (CheckResult.mk <$> ·) hrule

end ExpandEngine

end Kraalzibar
