import Kraalzibar.Core.DepthLimit

/-!
# Cycle detection and the answers

The check engine answers `false` for an arrow target that is already being evaluated,
also inside the excluded operand of an exclusion.  Compared with the evaluator that
enters every target, this cuts nothing an answer depends on: when the evaluation of a
target meets the same target again, it would meet it at every level below as well, and
the naive evaluator stops at the depth limit.

* `naiveCheck` — the check engine without the visited set;
* `AnswersAt` — the levels at which it answers about a target;
* `cycle_detection_keeps_answers` — what it answers, the check engine answers.
-/

namespace Kraalzibar

open Foundations

namespace CheckEngine

variable (engine : CheckEngine)

/-- `evaluate_rule` without the visited set: it is emptied before each rule. -/
def naiveWithin : Nat → Evaluator
  | 0 => fun _ _ _ ctx => throw (.maxDepthExceeded ctx.depth)
  | remaining + 1 => fun rule objectType objectId ctx =>
      engine.ruleBody (naiveWithin remaining) objectType objectId { ctx with visited := [] }
        rule

def naiveRule : Evaluator := fun rule objectType objectId ctx =>
  engine.naiveWithin (engine.config.maxDepth + 1 - ctx.depth)
    rule objectType objectId ctx

def naiveCheck (request : CheckRequest) : ReadM CheckResult :=
  match engine.schema.getType request.objectType with
  | none => throw (.typeNotFound request.objectType)
  | some typeDef =>
    match typeDef.getPermission request.permission with
    | none => throw (.permissionNotFound request.objectType request.permission)
    | some permDef => do
        let allowed ← engine.naiveRule permDef.rule request.objectType
          request.objectId request.context
        pure { allowed }

variable {engine} {reader : TupleReader}
variable {subjectType subjectId : String} {snapshot : Option SnapshotToken}
variable {ctx ctx' : CheckContext}

theorem ContextFor.same (h : ContextFor subjectType subjectId snapshot ctx)
    (h' : ContextFor subjectType subjectId snapshot ctx') : CheckContext.Same ctx ctx' where
  subjectType := h'.subjectType.trans h.subjectType.symm
  subjectId := h'.subjectId.trans h.subjectId.symm
  snapshot := h'.snapshot.trans h.snapshot.symm

theorem ContextFor.at (h : ContextFor subjectType subjectId snapshot ctx) (depth : Nat)
    (visited : List VisitKey) :
    ContextFor subjectType subjectId snapshot { ctx with depth, visited } where
  subjectType := h.subjectType
  subjectId := h.subjectId
  snapshot := h.snapshot

/-- More levels keep what the naive evaluator answers. -/
theorem naiveWithin_extends {n n' : Nat} (hn : n ≤ n') (rule : RewriteRule)
    (objectType objectId : String) (hctx : ContextFor subjectType subjectId snapshot ctx)
    (hctx' : ContextFor subjectType subjectId snapshot ctx') (hdepth : ctx'.depth ≤ ctx.depth) :
    Extends (Fallible.eval reader (engine.naiveWithin n rule objectType objectId ctx))
      (Fallible.eval reader (engine.naiveWithin n' rule objectType objectId ctx')) := by
  induction n generalizing n' rule objectType objectId ctx ctx' with
  | zero => exact .error _ _
  | succ n ih =>
      obtain ⟨m, rfl⟩ : ∃ m, n' = m + 1 := ⟨n' - 1, by omega⟩
      have hm : n ≤ m := Nat.le_of_succ_le_succ hn
      refine ruleBody_extends rfl ((hctx.at ctx.depth []).same (hctx'.at ctx'.depth []))
        (fun h => hdepth.trans h) ?_ ?_ rule
      · intro name td pd _ _
        exact ih hm _ _ _ (hctx.at _ _) (hctx'.at _ _) (Nat.succ_le_succ hdepth)
      · intro perm t
        have hempty : ({ ctx' with visited := [] } : CheckContext).visited =
            ({ ctx with visited := [] } : CheckContext).visited := rfl
        exact evaluateTarget_extends rfl hempty (fun _ _ _ _ =>
          ih hm _ _ _ (hctx.at _ _) (hctx'.at _ _) (Nat.succ_le_succ hdepth)) perm t

/-- With `n` levels left, the naive evaluator answers `b` about node `k` for the subject. -/
def AnswersAt (engine : CheckEngine) (reader : TupleReader) (subjectType subjectId : String)
    (snapshot : Option SnapshotToken) (k : VisitKey) (n : Nat) (b : Bool) : Prop :=
  ∃ td pd ctx, engine.schema.getType k.1 = some td ∧ td.getPermission k.2.2 = some pd ∧
    ContextFor subjectType subjectId snapshot ctx ∧
    ctx.depth + n = engine.config.maxDepth + 1 ∧
    Fallible.eval reader (engine.naiveWithin n pd.rule k.1 k.2.1 ctx) = .ok b

theorem AnswersAt.exists_least {k : VisitKey} {n : Nat} {b : Bool}
    (h : engine.AnswersAt reader subjectType subjectId snapshot k n b) :
    ∃ m ≤ n, (∃ b', engine.AnswersAt reader subjectType subjectId snapshot k m b') ∧
      ∀ m' < m, ∀ b', ¬ engine.AnswersAt reader subjectType subjectId snapshot k m' b' := by
  classical
  have hexists : ∃ m b', engine.AnswersAt reader subjectType subjectId snapshot k m b' :=
    ⟨n, b, h⟩
  refine ⟨Nat.find hexists, Nat.find_min' hexists ⟨b, h⟩, Nat.find_spec hexists, ?_⟩
  intro m' hm' b' hb'
  exact Nat.find_min hexists hm' ⟨b', hb'⟩

/-- **No answer is cut.**  Where the naive evaluator answers with `n` levels left, and
about no visited node with fewer, the engine gives the same answer. -/
theorem evaluateWithin_of_naive {n r : Nat} (hr : n ≤ r) (rule : RewriteRule)
    (objectType objectId : String) (hctx : ContextFor subjectType subjectId snapshot ctx)
    (hctx' : ContextFor subjectType subjectId snapshot ctx')
    (hn : ctx.depth + n = engine.config.maxDepth + 1)
    (hlevels : ctx'.depth + r = engine.config.maxDepth + 1)
    (hvisited : ∀ v ∈ ctx'.visited, ∀ m < n, ∀ b,
      ¬ engine.AnswersAt reader subjectType subjectId snapshot v m b) :
    Extends (Fallible.eval reader (engine.naiveWithin n rule objectType objectId ctx))
      (Fallible.eval reader (engine.evaluateWithin r rule objectType objectId ctx')) := by
  induction n using Nat.strong_induction_on generalizing r rule objectType objectId ctx ctx'
    with
  | _ n ih =>
  cases n with
  | zero => exact .error _ _
  | succ n =>
      obtain ⟨r, rfl⟩ : ∃ r', r = r' + 1 := ⟨r - 1, by omega⟩
      have hlimit : ctx'.depth ≤ engine.config.maxDepth := by omega
      have hlevels : ctx'.depth + 1 + r = engine.config.maxDepth + 1 := by omega
      have hn : ctx.depth + 1 + n = engine.config.maxDepth + 1 := by omega
      refine ruleBody_extends rfl ((hctx.at ctx.depth []).same hctx') (fun _ => hlimit) ?_ ?_
        rule
      · intro name td pd _ _
        refine ih n (Nat.lt_succ_self n) (by omega) _ _ _ (hctx.at _ _) (hctx'.at _ _) hn
          hlevels ?_
        intro v hv m hm
        exact hvisited v hv m (by omega)
      · intro perm t b hb
        rcases evaluateTarget_of_ok hb with ⟨hmem, -⟩ | ⟨-, td, pd, htype, hget, hb⟩
        · exact absurd hmem List.not_mem_nil
        have hanswers : engine.AnswersAt reader subjectType subjectId snapshot
            (t.subject.subjectType, t.subject.subjectId, perm) n b :=
          ⟨td, pd, _, htype, hget, hctx.at _ _, hn, hb⟩
        have hfresh : (t.subject.subjectType, t.subject.subjectId, perm) ∉ ctx'.visited :=
          fun hmem => hvisited _ hmem n (Nat.lt_succ_self n) b hanswers
        have heq : engine.evaluateTarget (engine.evaluateWithin r) perm ctx' t =
            engine.evaluateWithin r pd.rule t.subject.subjectType t.subject.subjectId
              { ctx' with
                depth := ctx'.depth + 1
                visited :=
                  (t.subject.subjectType, t.subject.subjectId, perm) :: ctx'.visited } := by
          simp only [evaluateTarget, hfresh, if_false, htype, hget]
        -- the target joins the visited nodes at the fewest levels that answer about it
        obtain ⟨m, hm, hleast, hfewer⟩ := hanswers.exists_least
        obtain ⟨b', td', pd', ctxm, htype', hget', hctxm, hdepth, hb'⟩ := hleast
        obtain rfl : td = td' := Option.some.inj (htype.symm.trans htype')
        obtain rfl : pd = pd' := Option.some.inj (hget.symm.trans hget')
        have hsame := naiveWithin_extends hm pd.rule _ _ hctxm (hctx.at (ctx.depth + 1)
          [(t.subject.subjectType, t.subject.subjectId, perm)]) (by simp only; omega) b' hb'
        obtain rfl : b = b' := Except.ok.inj (hb.symm.trans hsame)
        rw [heq]
        refine ih m (by omega) (by omega) pd.rule _ _ hctxm (hctx'.at _ _) hdepth hlevels ?_
          b hb'
        intro v hv
        rcases List.mem_cons.mp hv with rfl | hv
        · exact hfewer
        · intro m' hm'
          exact hvisited v hv m' (by omega)

end CheckEngine

/-- **Cycle detection never changes an answer.**  Whatever the evaluator without a visited
set answers, the check engine answers, for every schema and every limit. -/
theorem cycle_detection_keeps_answers (engine : CheckEngine) (reader : TupleReader)
    (request : CheckRequest) (result : CheckResult)
    (h : Fallible.eval reader (engine.naiveCheck request) = .ok result) :
    Fallible.eval reader (engine.check request) = .ok result := by
  have hextends : Extends (Fallible.eval reader (engine.naiveCheck request))
      (Fallible.eval reader (engine.check request)) := by
    unfold CheckEngine.naiveCheck CheckEngine.check
    cases engine.schema.getType request.objectType with
    | none => exact .error _ _
    | some td =>
        cases hget : td.getPermission request.permission with
        | none =>
            simp only [hget]
            exact .error _ _
        | some pd =>
            have hctx : CheckEngine.ContextFor request.subjectType request.subjectId
                request.snapshot request.context := ⟨rfl, rfl, rfl⟩
            have hlevels : request.context.depth +
                (engine.config.maxDepth + 1 - request.context.depth) =
                  engine.config.maxDepth + 1 := Nat.zero_add _
            simp only [hget, Fallible.eval_bind]
            refine Extends.bind ?_ fun allowed _ => .refl _
            exact CheckEngine.evaluateWithin_of_naive le_rfl pd.rule _ _ hctx hctx hlevels
              hlevels nofun
  exact hextends result h

/-- Folder `b` lets alice in before its parent, folder `a`, is met again. -/
theorem cycle_detection_keeps_answers_folder :
    Fallible.eval (listReader folderTuples) (CheckEngine.check ⟨folderSchema, {}⟩
      ⟨"folder", "a", "open", "user", "alice", none⟩) = .ok ⟨true⟩ :=
  cycle_detection_keeps_answers ⟨folderSchema, {}⟩ (listReader folderTuples)
    ⟨"folder", "a", "open", "user", "alice", none⟩ ⟨true⟩ (by decide +kernel)

end Kraalzibar
