import Kraalzibar.Core.Engine
import Kraalzibar.Core.Schema

/-!
# The check engine

`CheckEngine.check` asks whether a direct subject has a permission on an
object.  It evaluates the permission's rewrite rule depth first, stops at the
first decisive child, and cuts an arrow target that is already being evaluated
on the current path.

The source's `evaluate_rule` calls itself in two ways: on the children of the
same rule, at the same depth, and on the rule of another permission, one level
deeper.  The first recursion is structural in the rule, the second counts down
to `max_depth`, so the body is written once over an arbitrary `next` for the
deeper call and closed by recursion on the remaining depth.
`CheckEngine.evaluateRule_eq` shows that the result is the source's recursion.
-/

namespace Kraalzibar

open Foundations

structure CheckRequest where
  objectType : String
  objectId : String
  permission : String
  subjectType : String
  subjectId : String
  snapshot : Option SnapshotToken

structure CheckResult where
  allowed : Bool
deriving DecidableEq

structure CheckContext where
  subjectType : String
  subjectId : String
  snapshot : Option SnapshotToken
  depth : Nat
  visited : List VisitKey

/-- The context `check` starts from. -/
def CheckRequest.context (request : CheckRequest) : CheckContext :=
  { subjectType := request.subjectType, subjectId := request.subjectId,
    snapshot := request.snapshot, depth := 0, visited := [] }

/-- The reader is supplied when the engine's program is run. -/
structure CheckEngine where
  schema : Schema
  config : EngineConfig

namespace CheckEngine

variable (engine : CheckEngine)

/-- The evaluation of a permission's rule on an object. -/
abbrev Evaluator := RewriteRule → String → String → CheckContext → ReadM Bool

/-- `if ctx.depth > self.config.max_depth { return Err(..) }` -/
def withinDepth (ctx : CheckContext) (x : ReadM Bool) : ReadM Bool :=
  if ctx.depth > engine.config.maxDepth then
    throw (.maxDepthExceeded ctx.depth)
  else x

/-- One iteration of the loop of `evaluate_this` over the relation's tuples. -/
def evaluateTuple (ctx : CheckContext) (tuple : Tuple) : ReadM Bool :=
  match tuple.subject.subjectRelation with
  | none =>
      pure (tuple.subject.subjectType == ctx.subjectType &&
        tuple.subject.subjectId == ctx.subjectId)
  | some rel => do
      let usersetTuples ← readTuples
        (usersetFilter tuple.subject.subjectType tuple.subject.subjectId rel
          ctx.subjectType ctx.subjectId) ctx.snapshot
      pure (!usersetTuples.isEmpty)

/-- The branch of `evaluate_this` for a stored relation. -/
def relationLoop (name objectType objectId : String) (ctx : CheckContext) :
    ReadM Bool := do
  let tuples ← readTuples (relationFilter objectType objectId name) ctx.snapshot
  tuples.anyM (evaluateTuple ctx)

def evaluateThis (next : Evaluator) (name objectType objectId : String)
    (ctx : CheckContext) : ReadM Bool :=
  match engine.schema.getType objectType with
  | none => throw (.typeNotFound objectType)
  | some typeDef =>
    match typeDef.getPermission name with
    | some permDef =>
        -- `visited` is not extended: only arrows record what they enter.
        next permDef.rule objectType objectId { ctx with depth := ctx.depth + 1 }
    | none =>
      match typeDef.getRelation name with
      | some _ => relationLoop name objectType objectId ctx
      | none => throw (.relationNotFound objectType name)

/-- One iteration of the loop of `evaluate_arrow` over the tupleset. -/
def evaluateTarget (next : Evaluator) (computedPerm : String)
    (ctx : CheckContext) (tuple : Tuple) : ReadM Bool :=
  let targetType := tuple.subject.subjectType
  let targetId := tuple.subject.subjectId
  let visitKey : VisitKey := (targetType, targetId, computedPerm)
  if visitKey ∈ ctx.visited then
    pure false
  else
    match engine.schema.getType targetType with
    | none => throw (.typeNotFound targetType)
    | some targetTypeDef =>
      match targetTypeDef.getPermission computedPerm with
      | none => throw (.permissionNotFound targetType computedPerm)
      | some permDef =>
          next permDef.rule targetType targetId
            { ctx with depth := ctx.depth + 1, visited := visitKey :: ctx.visited }

def evaluateArrow (next : Evaluator)
    (tuplesetRel computedPerm objectType objectId : String)
    (ctx : CheckContext) : ReadM Bool := do
  let tuples ← readTuples (relationFilter objectType objectId tuplesetRel)
    ctx.snapshot
  tuples.anyM (engine.evaluateTarget next computedPerm ctx)

mutual

/-- The body of `evaluate_rule`, with `next` for the evaluation of another
permission's rule. -/
def ruleBody (next : Evaluator) (objectType objectId : String)
    (ctx : CheckContext) : RewriteRule → ReadM Bool
  | .this name =>
      engine.withinDepth ctx (engine.evaluateThis next name objectType objectId ctx)
  | .union children =>
      engine.withinDepth ctx (unionLoop next objectType objectId ctx children)
  | .intersection children =>
      engine.withinDepth ctx (intersectionLoop next objectType objectId ctx children)
  | .exclusion base excluded =>
      engine.withinDepth ctx
        (andNotM (ruleBody next objectType objectId ctx base)
          (ruleBody next objectType objectId ctx excluded))
  | .arrow tuplesetRel computedPerm =>
      engine.withinDepth ctx
        (engine.evaluateArrow next tuplesetRel computedPerm objectType objectId ctx)

def unionLoop (next : Evaluator) (objectType objectId : String)
    (ctx : CheckContext) : List RewriteRule → ReadM Bool
  | [] => pure false
  | child :: children => do
      match ← ruleBody next objectType objectId ctx child with
      | true => pure true
      | false => unionLoop next objectType objectId ctx children

def intersectionLoop (next : Evaluator) (objectType objectId : String)
    (ctx : CheckContext) : List RewriteRule → ReadM Bool
  | [] => pure true
  | child :: children => do
      match ← ruleBody next objectType objectId ctx child with
      | true => intersectionLoop next objectType objectId ctx children
      | false => pure false

end

/-- `evaluate_rule` with `remaining` levels left: none left means that the
depth is past `max_depth`, which is the first thing `evaluate_rule` tests. -/
def evaluateWithin : Nat → Evaluator
  | 0 => fun _ _ _ ctx => throw (.maxDepthExceeded ctx.depth)
  | remaining + 1 => fun rule objectType objectId ctx =>
      engine.ruleBody (evaluateWithin remaining) objectType objectId ctx rule

def evaluateRule : Evaluator := fun rule objectType objectId ctx =>
  engine.evaluateWithin (engine.config.maxDepth + 1 - ctx.depth)
    rule objectType objectId ctx

def check (request : CheckRequest) : ReadM CheckResult :=
  match engine.schema.getType request.objectType with
  | none => throw (.typeNotFound request.objectType)
  | some typeDef =>
    match typeDef.getPermission request.permission with
    | none => throw (.permissionNotFound request.objectType request.permission)
    | some permDef => do
        let allowed ← engine.evaluateRule permDef.rule request.objectType
          request.objectId request.context
        pure { allowed }

variable {engine}

theorem unionLoop_eq (next : Evaluator) (objectType objectId : String)
    (ctx : CheckContext) (children : List RewriteRule) :
    engine.unionLoop next objectType objectId ctx children =
      children.anyM (engine.ruleBody next objectType objectId ctx) := by
  induction children with
  | nil => rfl
  | cons child children ih =>
      simp only [unionLoop, List.anyM, ih]
      rfl

theorem intersectionLoop_eq (next : Evaluator) (objectType objectId : String)
    (ctx : CheckContext) (children : List RewriteRule) :
    engine.intersectionLoop next objectType objectId ctx children =
      children.allM (engine.ruleBody next objectType objectId ctx) := by
  induction children with
  | nil => rfl
  | cons child children ih =>
      simp only [intersectionLoop, List.allM, ih]
      rfl

/-- The depth test only turns answers into errors. -/
theorem withinDepth_decides {reader : TupleReader} {ctx : CheckContext} {x : ReadM Bool}
    {P : Prop} (h : Decides (x.eval reader) P) :
    Decides (Fallible.eval reader (engine.withinDepth ctx x)) P := by
  unfold withinDepth
  split
  · exact .error _
  · exact h

/-- A check of a declared permission evaluates its rule. -/
theorem eval_check {reader : TupleReader} {request : CheckRequest}
    {td : TypeDefinition} {pd : PermissionDef}
    (htype : engine.schema.getType request.objectType = some td)
    (hperm : td.getPermission request.permission = some pd) :
    Fallible.eval reader (engine.check request) =
      CheckResult.mk <$> Fallible.eval reader (engine.evaluateRule pd.rule
        request.objectType request.objectId request.context) := by
  simp only [check, htype, hperm, Fallible.eval_bind, Fallible.eval_pure]
  rfl

/-- What a check can do: evaluate the rule of a declared permission, or fail at an
unknown name. -/
theorem check_cases (engine : CheckEngine) (request : CheckRequest) :
    (∃ td pd, engine.schema.getType request.objectType = some td ∧
      td.getPermission request.permission = some pd ∧
      engine.check request = (do
        let allowed ← engine.evaluateRule pd.rule request.objectType request.objectId
          request.context
        pure { allowed })) ∨
    ∃ e, ¬ e.IsDepth ∧ engine.check request = throw e := by
  cases htype : engine.schema.getType request.objectType with
  | none => exact Or.inr ⟨.typeNotFound request.objectType, nofun, by simp [check, htype]⟩
  | some td =>
      cases hperm : td.getPermission request.permission with
      | none =>
          exact Or.inr ⟨.permissionNotFound request.objectType request.permission, nofun,
            by simp [check, htype, hperm]⟩
      | some pd => exact Or.inl ⟨td, pd, rfl, hperm, by simp only [check, htype, hperm]⟩

/-- A check that answers found the permission declared. -/
theorem declared_of_check {reader : TupleReader} {request : CheckRequest}
    {result : CheckResult}
    (h : Fallible.eval reader (engine.check request) = .ok result) :
    ∃ td pd, engine.schema.getType request.objectType = some td ∧
      td.getPermission request.permission = some pd ∧
      Fallible.eval reader (engine.evaluateRule pd.rule request.objectType
        request.objectId request.context) = .ok result.allowed := by
  rcases check_cases engine request with ⟨td, pd, htype, hperm, heq⟩ | ⟨e, -, heq⟩
  · rw [heq, Fallible.eval_bind] at h
    obtain ⟨allowed, heval, hresult⟩ := bind_eq_ok.mp h
    obtain rfl := Except.ok.inj hresult
    exact ⟨td, pd, htype, hperm, heval⟩
  · rw [heq] at h
    cases h

/-- What `evaluate_this` can do: evaluate the permission of that name, loop over
the relation of that name, or fail at an unknown name. -/
theorem evaluateThis_cases (engine : CheckEngine) (next : Evaluator)
    (name objectType objectId : String) (ctx : CheckContext) :
    (∃ td pd, engine.schema.getType objectType = some td ∧
      td.getPermission name = some pd ∧
      engine.evaluateThis next name objectType objectId ctx =
        next pd.rule objectType objectId { ctx with depth := ctx.depth + 1 }) ∨
    (∃ td rd, engine.schema.getType objectType = some td ∧
      td.getPermission name = none ∧ td.getRelation name = some rd ∧
      engine.evaluateThis next name objectType objectId ctx =
        relationLoop name objectType objectId ctx) ∨
    ∃ e, ¬ e.IsDepth ∧
      engine.evaluateThis next name objectType objectId ctx = throw e := by
  unfold evaluateThis
  cases htype : engine.schema.getType objectType with
  | none => exact Or.inr (Or.inr ⟨.typeNotFound objectType, nofun, rfl⟩)
  | some td =>
      cases hperm : td.getPermission name with
      | some pd => exact Or.inl ⟨td, pd, rfl, hperm, by simp [hperm]⟩
      | none =>
          cases hrel : td.getRelation name with
          | some rd => exact Or.inr (Or.inl ⟨td, rd, rfl, hperm, hrel, by simp [hperm, hrel]⟩)
          | none =>
              exact Or.inr (Or.inr ⟨.relationNotFound objectType name, nofun,
                by simp [hperm, hrel]⟩)

/-- What one arrow target can do: be skipped because it is visited, be
evaluated with its key added to the visited set, or fail at an unknown name. -/
theorem evaluateTarget_cases (engine : CheckEngine) (next : Evaluator) (perm : String)
    (ctx : CheckContext) (t : Tuple) :
    ((t.subject.subjectType, t.subject.subjectId, perm) ∈ ctx.visited ∧
      engine.evaluateTarget next perm ctx t = pure false) ∨
    ((t.subject.subjectType, t.subject.subjectId, perm) ∉ ctx.visited ∧
      ∃ td pd, engine.schema.getType t.subject.subjectType = some td ∧
        td.getPermission perm = some pd ∧
        engine.evaluateTarget next perm ctx t =
          next pd.rule t.subject.subjectType t.subject.subjectId
            { ctx with
              depth := ctx.depth + 1
              visited :=
                (t.subject.subjectType, t.subject.subjectId, perm) :: ctx.visited }) ∨
    ((t.subject.subjectType, t.subject.subjectId, perm) ∉ ctx.visited ∧
      ∃ e, ¬ e.IsDepth ∧ engine.evaluateTarget next perm ctx t = throw e) := by
  unfold evaluateTarget
  by_cases hvisited : (t.subject.subjectType, t.subject.subjectId, perm) ∈ ctx.visited
  · exact Or.inl ⟨hvisited, by simp [hvisited]⟩
  · cases htype : engine.schema.getType t.subject.subjectType with
    | none =>
        exact Or.inr (Or.inr ⟨hvisited, .typeNotFound t.subject.subjectType, nofun,
          by simp [hvisited, htype]⟩)
    | some td =>
        cases hperm : td.getPermission perm with
        | some pd =>
            exact Or.inr (Or.inl ⟨hvisited, td, pd, rfl, hperm,
              by simp [hvisited, htype, hperm]⟩)
        | none =>
            exact Or.inr (Or.inr ⟨hvisited,
              .permissionNotFound t.subject.subjectType perm, nofun,
              by simp [hvisited, htype, hperm]⟩)

/-! ### What an evaluation that answers did -/

section

variable {reader : TupleReader} {next : Evaluator} {ctx : CheckContext} {b : Bool}

theorem evaluateThis_of_ok {name objectType objectId : String}
    (h : Fallible.eval reader (engine.evaluateThis next name objectType objectId ctx) =
      .ok b) :
    (∃ td pd, engine.schema.getType objectType = some td ∧
      td.getPermission name = some pd ∧
      Fallible.eval reader
        (next pd.rule objectType objectId { ctx with depth := ctx.depth + 1 }) = .ok b) ∨
    ∃ td rd, engine.schema.getType objectType = some td ∧
      td.getPermission name = none ∧ td.getRelation name = some rd ∧
      Fallible.eval reader (relationLoop name objectType objectId ctx) = .ok b := by
  rcases evaluateThis_cases engine next name objectType objectId ctx with
    ⟨td, pd, htype, hperm, heq⟩ | ⟨td, rd, htype, hperm, hrel, heq⟩ | ⟨e, -, heq⟩
  · exact Or.inl ⟨td, pd, htype, hperm, heq ▸ h⟩
  · exact Or.inr ⟨td, rd, htype, hperm, hrel, heq ▸ h⟩
  · rw [heq] at h
    cases h

theorem evaluateTarget_of_ok {perm : String} {t : Tuple}
    (h : Fallible.eval reader (engine.evaluateTarget next perm ctx t) = .ok b) :
    ((t.subject.subjectType, t.subject.subjectId, perm) ∈ ctx.visited ∧ b = false) ∨
    ((t.subject.subjectType, t.subject.subjectId, perm) ∉ ctx.visited ∧
      ∃ td pd, engine.schema.getType t.subject.subjectType = some td ∧
        td.getPermission perm = some pd ∧
        Fallible.eval reader (next pd.rule t.subject.subjectType t.subject.subjectId
          { ctx with
            depth := ctx.depth + 1
            visited :=
              (t.subject.subjectType, t.subject.subjectId, perm) :: ctx.visited }) =
          .ok b) := by
  rcases evaluateTarget_cases engine next perm ctx t with
    ⟨hvisited, heq⟩ | ⟨hfresh, td, pd, htype, hperm, heq⟩ | ⟨-, e, -, heq⟩
  · rw [heq] at h
    exact Or.inl ⟨hvisited, (Except.ok.inj h).symm⟩
  · exact Or.inr ⟨hfresh, td, pd, htype, hperm, heq ▸ h⟩
  · rw [heq] at h
    cases h

end

/-- The body of a rule calls `next` one level deeper only. -/
theorem ruleBody_congr {next next' : Evaluator} {objectType objectId : String}
    {ctx : CheckContext}
    (hnext : ∀ rule objectType objectId ctx', ctx'.depth = ctx.depth + 1 →
      next rule objectType objectId ctx' = next' rule objectType objectId ctx')
    (rule : RewriteRule) :
    engine.ruleBody next objectType objectId ctx rule =
      engine.ruleBody next' objectType objectId ctx rule := by
  induction rule with
  | this name =>
      simp only [ruleBody, evaluateThis, hnext _ _ _ { ctx with depth := ctx.depth + 1 } rfl]
  | union children ih =>
      simp only [ruleBody, unionLoop_eq]
      congr 1
      exact anyM_congr ih
  | intersection children ih =>
      simp only [ruleBody, intersectionLoop_eq]
      congr 1
      exact allM_congr ih
  | exclusion base excluded ihBase ihExcluded =>
      simp only [ruleBody, ihBase, ihExcluded]
  | arrow rel perm =>
      have htarget : engine.evaluateTarget next perm ctx =
          engine.evaluateTarget next' perm ctx := by
        funext tuple
        simp only [evaluateTarget]
        split
        · rfl
        · simp only [hnext _ _ _ { ctx with depth := ctx.depth + 1, visited := _ } rfl]
      simp only [ruleBody, evaluateArrow, htarget]

/-- **The recursion of the source.**  `evaluateRule` calls itself wherever
`evaluate_rule` does. -/
theorem evaluateRule_eq (rule : RewriteRule) (objectType objectId : String)
    (ctx : CheckContext) :
    engine.evaluateRule rule objectType objectId ctx =
      engine.ruleBody engine.evaluateRule objectType objectId ctx rule := by
  by_cases hdepth : ctx.depth ≤ engine.config.maxDepth
  · obtain ⟨remaining, hrem⟩ : ∃ n, engine.config.maxDepth + 1 - ctx.depth = n + 1 :=
      ⟨engine.config.maxDepth - ctx.depth, by omega⟩
    simp only [evaluateRule, hrem, evaluateWithin]
    refine ruleBody_congr (fun rule objectType objectId ctx' hctx => ?_) rule
    have hrem' : engine.config.maxDepth + 1 - ctx'.depth = remaining := by omega
    simp only [evaluateRule, hrem']
  · have hrem : engine.config.maxDepth + 1 - ctx.depth = 0 := by omega
    simp only [evaluateRule, hrem, evaluateWithin]
    have hgt : ctx.depth > engine.config.maxDepth := by omega
    cases rule <;> simp [ruleBody, withinDepth, hgt]

end CheckEngine

end Kraalzibar
