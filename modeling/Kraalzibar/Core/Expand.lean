import Kraalzibar.Core.Engine
import Kraalzibar.Core.Schema

/-!
# The expand engine

`ExpandEngine.expand` evaluates the same rules as the check engine but returns
the whole tree of contributing subjects: nothing is short-circuited, and a
userset on a relation is replaced by the subjects stored for it.

`ExpandTree.member` reads a tree back as the set of direct subjects it grants,
with intersections and exclusions applied.
-/

namespace Kraalzibar

open Foundations

structure ExpandRequest where
  objectType : String
  objectId : String
  permission : String
  snapshot : Option SnapshotToken

inductive ExpandTree where
  | leaf (subject : SubjectRef)
  | this (relation : String) (subjects : List ExpandTree)
  | union (children : List ExpandTree)
  | intersection (children : List ExpandTree)
  | exclusion (base excluded : ExpandTree)
  | arrow (tuplesetRelation computedPermission : String) (children : List ExpandTree)

namespace ExpandTree

/-- Induction over a tree: a statement about an n-ary node may use the
statement about each of its children. -/
@[elab_as_elim, induction_eliminator]
theorem ind {motive : ExpandTree → Prop}
    (leaf : ∀ subject, motive (.leaf subject))
    (this : ∀ relation subjects, (∀ c ∈ subjects, motive c) →
      motive (.this relation subjects))
    (union : ∀ children, (∀ c ∈ children, motive c) → motive (.union children))
    (intersection : ∀ children, (∀ c ∈ children, motive c) →
      motive (.intersection children))
    (exclusion : ∀ base excluded, motive base → motive excluded →
      motive (.exclusion base excluded))
    (arrow : ∀ rel perm children, (∀ c ∈ children, motive c) →
      motive (.arrow rel perm children)) :
    ∀ tree, motive tree := by
  intro tree
  refine @ExpandTree.rec motive (fun children => ∀ c ∈ children, motive c)
    leaf this union intersection exclusion arrow ?_ ?_ tree
  · intro c hc
    cases hc
  · intro head tail hhead htail c hc
    rcases List.mem_cons.mp hc with rfl | hmem
    · exact hhead
    · exact htail c hmem

mutual

/-- The direct subject `subjectType:subjectId` is granted by the tree. -/
def member (subjectType subjectId : String) : ExpandTree → Bool
  | .leaf subject => decide (subject = SubjectRef.direct subjectType subjectId)
  | .this _ subjects => memberAny subjectType subjectId subjects
  | .union children => memberAny subjectType subjectId children
  | .intersection children => memberAll subjectType subjectId children
  | .exclusion base excluded =>
      member subjectType subjectId base && !member subjectType subjectId excluded
  | .arrow _ _ children => memberAny subjectType subjectId children

def memberAny (subjectType subjectId : String) : List ExpandTree → Bool
  | [] => false
  | child :: children =>
      member subjectType subjectId child || memberAny subjectType subjectId children

def memberAll (subjectType subjectId : String) : List ExpandTree → Bool
  | [] => true
  | child :: children =>
      member subjectType subjectId child && memberAll subjectType subjectId children

end

variable (subjectType subjectId : String)

@[simp] theorem memberAny_eq (children : List ExpandTree) :
    memberAny subjectType subjectId children =
      children.any (member subjectType subjectId) := by
  induction children with
  | nil => rfl
  | cons child children ih => simp [memberAny, ih]

@[simp] theorem memberAll_eq (children : List ExpandTree) :
    memberAll subjectType subjectId children =
      children.all (member subjectType subjectId) := by
  induction children with
  | nil => rfl
  | cons child children ih => simp [memberAll, ih]

end ExpandTree

structure ExpandContext where
  snapshot : Option SnapshotToken
  depth : Nat
  visited : List VisitKey

/-- The reader is supplied when the engine's program is run. -/
structure ExpandEngine where
  schema : Schema
  config : EngineConfig

namespace ExpandEngine

variable (engine : ExpandEngine)

/-- The expansion of a permission's rule on an object. -/
abbrev Expander := RewriteRule → String → String → ExpandContext → ReadM ExpandTree

def withinDepth (ctx : ExpandContext) (x : ReadM ExpandTree) : ReadM ExpandTree :=
  if ctx.depth > engine.config.maxDepth then
    throw (.maxDepthExceeded ctx.depth)
  else x

/-- One iteration of the loop of `expand_this`: the leaves one tuple adds. -/
def expandTuple (ctx : ExpandContext) (tuple : Tuple) : ReadM (List ExpandTree) :=
  match tuple.subject.subjectRelation with
  | some rel => do
      let usersetTuples ← readTuples
        (relationFilter tuple.subject.subjectType tuple.subject.subjectId rel)
        ctx.snapshot
      pure (usersetTuples.map (fun ut => .leaf ut.subject))
  | none => pure [.leaf tuple.subject]

/-- The branch of `expand_this` for a stored relation. -/
def expandRelation (name objectType objectId : String) (ctx : ExpandContext) :
    ReadM ExpandTree := do
  let tuples ← readTuples (relationFilter objectType objectId name) ctx.snapshot
  let subjects ← tuples.mapM (expandTuple ctx)
  pure (.this name subjects.flatten)

def expandThis (next : Expander) (name objectType objectId : String)
    (ctx : ExpandContext) : ReadM ExpandTree :=
  match engine.schema.getType objectType with
  | none => throw (.typeNotFound objectType)
  | some typeDef =>
    match typeDef.getPermission name with
    | some permDef =>
        next permDef.rule objectType objectId { ctx with depth := ctx.depth + 1 }
    | none =>
      match typeDef.getRelation name with
      | some _ => expandRelation name objectType objectId ctx
      | none => throw (.relationNotFound objectType name)

/-- One iteration of the loop of `expand_arrow`: the child one target adds, if
it is not already being expanded. -/
def expandTarget (next : Expander) (computedPerm : String)
    (ctx : ExpandContext) (tuple : Tuple) : ReadM (Option ExpandTree) :=
  let targetType := tuple.subject.subjectType
  let targetId := tuple.subject.subjectId
  let visitKey : VisitKey := (targetType, targetId, computedPerm)
  if visitKey ∈ ctx.visited then
    pure none
  else
    match engine.schema.getType targetType with
    | none => throw (.typeNotFound targetType)
    | some targetTypeDef =>
      match targetTypeDef.getPermission computedPerm with
      | none => throw (.permissionNotFound targetType computedPerm)
      | some permDef => do
          let childTree ← next permDef.rule targetType targetId
            { ctx with depth := ctx.depth + 1, visited := visitKey :: ctx.visited }
          pure (some childTree)

def expandArrow (next : Expander)
    (tuplesetRel computedPerm objectType objectId : String)
    (ctx : ExpandContext) : ReadM ExpandTree := do
  let tuples ← readTuples (relationFilter objectType objectId tuplesetRel)
    ctx.snapshot
  let children ← tuples.mapM (engine.expandTarget next computedPerm ctx)
  pure (.arrow tuplesetRel computedPerm (children.filterMap id))

mutual

/-- The body of `expand_rule`, with `next` for the expansion of another
permission's rule. -/
def ruleBody (next : Expander) (objectType objectId : String)
    (ctx : ExpandContext) : RewriteRule → ReadM ExpandTree
  | .this name =>
      engine.withinDepth ctx (engine.expandThis next name objectType objectId ctx)
  | .union children =>
      engine.withinDepth ctx (do
        let expanded ← childLoop next objectType objectId ctx children
        pure (.union expanded))
  | .intersection children =>
      engine.withinDepth ctx (do
        let expanded ← childLoop next objectType objectId ctx children
        pure (.intersection expanded))
  | .exclusion base excluded =>
      engine.withinDepth ctx (do
        let baseTree ← ruleBody next objectType objectId ctx base
        let excludedTree ← ruleBody next objectType objectId ctx excluded
        pure (.exclusion baseTree excludedTree))
  | .arrow tuplesetRel computedPerm =>
      engine.withinDepth ctx
        (engine.expandArrow next tuplesetRel computedPerm objectType objectId ctx)

def childLoop (next : Expander) (objectType objectId : String)
    (ctx : ExpandContext) : List RewriteRule → ReadM (List ExpandTree)
  | [] => pure []
  | child :: children => do
      let expanded ← ruleBody next objectType objectId ctx child
      let rest ← childLoop next objectType objectId ctx children
      pure (expanded :: rest)

end

/-- `expand_rule` with `remaining` levels left. -/
def expandWithin : Nat → Expander
  | 0 => fun _ _ _ ctx => throw (.maxDepthExceeded ctx.depth)
  | remaining + 1 => fun rule objectType objectId ctx =>
      engine.ruleBody (expandWithin remaining) objectType objectId ctx rule

def expandRule : Expander := fun rule objectType objectId ctx =>
  engine.expandWithin (engine.config.maxDepth + 1 - ctx.depth)
    rule objectType objectId ctx

def expand (request : ExpandRequest) : ReadM ExpandTree :=
  match engine.schema.getType request.objectType with
  | none => throw (.typeNotFound request.objectType)
  | some typeDef =>
    match typeDef.getPermission request.permission with
    | none => throw (.permissionNotFound request.objectType request.permission)
    | some permDef =>
        engine.expandRule permDef.rule request.objectType request.objectId
          { snapshot := request.snapshot, depth := 0, visited := [] }

variable {engine}

theorem childLoop_eq (next : Expander) (objectType objectId : String)
    (ctx : ExpandContext) (children : List RewriteRule) :
    engine.childLoop next objectType objectId ctx children =
      children.mapM (engine.ruleBody next objectType objectId ctx) := by
  induction children with
  | nil => rfl
  | cons child children ih => rw [childLoop, List.mapM_cons, ih]

/-- An expansion of a declared permission expands its rule. -/
theorem expand_eq {request : ExpandRequest} {td : TypeDefinition} {pd : PermissionDef}
    (htype : engine.schema.getType request.objectType = some td)
    (hperm : td.getPermission request.permission = some pd) :
    engine.expand request = engine.expandRule pd.rule request.objectType
      request.objectId { snapshot := request.snapshot, depth := 0, visited := [] } := by
  simp only [expand, htype, hperm]

/-- What an expansion can do: expand the rule of a declared permission, or fail at an
unknown name. -/
theorem expand_cases (engine : ExpandEngine) (request : ExpandRequest) :
    (∃ td pd, engine.schema.getType request.objectType = some td ∧
      td.getPermission request.permission = some pd ∧
      engine.expand request = engine.expandRule pd.rule request.objectType
        request.objectId { snapshot := request.snapshot, depth := 0, visited := [] }) ∨
    ∃ e, ¬ e.IsDepth ∧ engine.expand request = throw e := by
  cases htype : engine.schema.getType request.objectType with
  | none => exact Or.inr ⟨.typeNotFound request.objectType, nofun, by simp [expand, htype]⟩
  | some td =>
      cases hperm : td.getPermission request.permission with
      | none =>
          exact Or.inr ⟨.permissionNotFound request.objectType request.permission, nofun,
            by simp [expand, htype, hperm]⟩
      | some pd => exact Or.inl ⟨td, pd, rfl, hperm, expand_eq htype hperm⟩

/-- An expansion that answers found the permission declared. -/
theorem declared_of_expand {reader : TupleReader} {request : ExpandRequest}
    {tree : ExpandTree}
    (h : Fallible.eval reader (engine.expand request) = .ok tree) :
    ∃ td pd, engine.schema.getType request.objectType = some td ∧
      td.getPermission request.permission = some pd ∧
      Fallible.eval reader (engine.expandRule pd.rule request.objectType
        request.objectId { snapshot := request.snapshot, depth := 0, visited := [] }) =
          .ok tree := by
  rcases expand_cases engine request with ⟨td, pd, htype, hperm, heq⟩ | ⟨e, -, heq⟩
  · exact ⟨td, pd, htype, hperm, heq ▸ h⟩
  · rw [heq] at h
    cases h

/-- What `expand_this` can do: expand the permission of that name, list the
relation of that name, or fail at an unknown name. -/
theorem expandThis_cases (engine : ExpandEngine) (next : Expander)
    (name objectType objectId : String) (ctx : ExpandContext) :
    (∃ td pd, engine.schema.getType objectType = some td ∧
      td.getPermission name = some pd ∧
      engine.expandThis next name objectType objectId ctx =
        next pd.rule objectType objectId { ctx with depth := ctx.depth + 1 }) ∨
    (∃ td rd, engine.schema.getType objectType = some td ∧
      td.getPermission name = none ∧ td.getRelation name = some rd ∧
      engine.expandThis next name objectType objectId ctx =
        expandRelation name objectType objectId ctx) ∨
    ∃ e, ¬ e.IsDepth ∧
      engine.expandThis next name objectType objectId ctx = throw e := by
  unfold expandThis
  cases htype : engine.schema.getType objectType with
  | none => exact Or.inr (Or.inr ⟨.typeNotFound objectType, nofun, rfl⟩)
  | some td =>
      cases hperm : td.getPermission name with
      | some pd => exact Or.inl ⟨td, pd, rfl, hperm, by simp [hperm]⟩
      | none =>
          cases hrel : td.getRelation name with
          | some rd => exact Or.inr (Or.inl ⟨td, rd, rfl, hperm, hrel, by simp [hperm, hrel]⟩)
          | none =>
              exact Or.inr (Or.inr ⟨.relationNotFound objectType name, nofun,
                by simp [hperm, hrel]⟩)

/-- What one arrow target can do: be skipped because it is visited, be expanded
with its key added to the visited set, or fail at an unknown name. -/
theorem expandTarget_cases (engine : ExpandEngine) (next : Expander) (perm : String)
    (ctx : ExpandContext) (t : Tuple) :
    ((t.subject.subjectType, t.subject.subjectId, perm) ∈ ctx.visited ∧
      engine.expandTarget next perm ctx t = pure none) ∨
    ((t.subject.subjectType, t.subject.subjectId, perm) ∉ ctx.visited ∧
      ∃ td pd, engine.schema.getType t.subject.subjectType = some td ∧
        td.getPermission perm = some pd ∧
        engine.expandTarget next perm ctx t = (do
          let childTree ← next pd.rule t.subject.subjectType t.subject.subjectId
            { ctx with
              depth := ctx.depth + 1
              visited :=
                (t.subject.subjectType, t.subject.subjectId, perm) :: ctx.visited }
          pure (some childTree))) ∨
    ((t.subject.subjectType, t.subject.subjectId, perm) ∉ ctx.visited ∧
      ∃ e, ¬ e.IsDepth ∧ engine.expandTarget next perm ctx t = throw e) := by
  unfold expandTarget
  by_cases hvisited : (t.subject.subjectType, t.subject.subjectId, perm) ∈ ctx.visited
  · exact Or.inl ⟨hvisited, by simp [hvisited]⟩
  · cases htype : engine.schema.getType t.subject.subjectType with
    | none =>
        exact Or.inr (Or.inr ⟨hvisited, .typeNotFound t.subject.subjectType, nofun,
          by simp [hvisited, htype]⟩)
    | some td =>
        cases hperm : td.getPermission perm with
        | some pd =>
            exact Or.inr (Or.inl ⟨hvisited, td, pd, rfl, hperm,
              by simp [hvisited, htype, hperm]⟩)
        | none =>
            exact Or.inr (Or.inr ⟨hvisited,
              .permissionNotFound t.subject.subjectType perm, nofun,
              by simp [hvisited, htype, hperm]⟩)

/-! ## What an expansion that answers did -/

section

variable {reader : TupleReader} {next : Expander} {name objectType objectId : String}
variable {ctx : ExpandContext} {tree : ExpandTree}

theorem withinDepth_eq_ok {x : ReadM ExpandTree} :
    Fallible.eval reader (engine.withinDepth ctx x) = .ok tree ↔
      ctx.depth ≤ engine.config.maxDepth ∧ Fallible.eval reader x = .ok tree := by
  unfold withinDepth
  by_cases hdepth : ctx.depth > engine.config.maxDepth
  · rw [if_pos hdepth]
    exact iff_of_false nofun (fun h => absurd h.1 (Nat.not_le_of_lt hdepth))
  · rw [if_neg hdepth, and_iff_right (Nat.le_of_not_lt hdepth)]

theorem expandTuple_eq_ok {t : Tuple} {leaves : List ExpandTree} :
    Fallible.eval reader (expandTuple ctx t) = .ok leaves ↔
      (t.subject.subjectRelation = none ∧ [.leaf t.subject] = leaves) ∨
      ∃ rel members, t.subject.subjectRelation = some rel ∧
        reader ⟨relationFilter t.subject.subjectType t.subject.subjectId rel,
          ctx.snapshot⟩ = .ok members ∧
        members.map (fun ut => .leaf ut.subject) = leaves := by
  unfold expandTuple
  cases t.subject.subjectRelation with
  | none => simp
  | some rel =>
      rw [Fallible.eval_bind_eq_ok]
      simp

theorem expandRelation_eq_ok :
    Fallible.eval reader (expandRelation name objectType objectId ctx) = .ok tree ↔
      ∃ tuples groups,
        reader ⟨relationFilter objectType objectId name, ctx.snapshot⟩ = .ok tuples ∧
        List.Forall₂ (fun t leaves => Fallible.eval reader (expandTuple ctx t) = .ok leaves)
          tuples groups ∧ .this name groups.flatten = tree := by
  unfold expandRelation
  simp only [Fallible.eval_bind_eq_ok, Fallible.eval_mapM_eq_ok, eval_readTuples,
    Fallible.eval_pure, Except.ok.injEq, exists_and_left]

theorem expandThis_of_ok
    (h : Fallible.eval reader (engine.expandThis next name objectType objectId ctx) =
      .ok tree) :
    (∃ td pd, engine.schema.getType objectType = some td ∧
      td.getPermission name = some pd ∧
      Fallible.eval reader
        (next pd.rule objectType objectId { ctx with depth := ctx.depth + 1 }) = .ok tree) ∨
    ∃ td rd, engine.schema.getType objectType = some td ∧
      td.getPermission name = none ∧ td.getRelation name = some rd ∧
      Fallible.eval reader (expandRelation name objectType objectId ctx) = .ok tree := by
  rcases expandThis_cases engine next name objectType objectId ctx with
    ⟨td, pd, htype, hperm, heq⟩ | ⟨td, rd, htype, hperm, hrel, heq⟩ | ⟨e, -, heq⟩
  · exact Or.inl ⟨td, pd, htype, hperm, heq ▸ h⟩
  · exact Or.inr ⟨td, rd, htype, hperm, hrel, heq ▸ h⟩
  · rw [heq] at h
    cases h

theorem expandTarget_of_ok {perm : String} {t : Tuple} {child : Option ExpandTree}
    (h : Fallible.eval reader (engine.expandTarget next perm ctx t) = .ok child) :
    ((t.subject.subjectType, t.subject.subjectId, perm) ∈ ctx.visited ∧ child = none) ∨
    ((t.subject.subjectType, t.subject.subjectId, perm) ∉ ctx.visited ∧
      ∃ td pd tree, engine.schema.getType t.subject.subjectType = some td ∧
        td.getPermission perm = some pd ∧
        Fallible.eval reader (next pd.rule t.subject.subjectType t.subject.subjectId
          { ctx with
            depth := ctx.depth + 1
            visited :=
              (t.subject.subjectType, t.subject.subjectId, perm) :: ctx.visited }) =
          .ok tree ∧ child = some tree) := by
  rcases expandTarget_cases engine next perm ctx t with
    ⟨hvisited, heq⟩ | ⟨hfresh, td, pd, htype, hperm, heq⟩ | ⟨-, e, -, heq⟩
  · rw [heq] at h
    exact Or.inl ⟨hvisited, (Except.ok.inj h).symm⟩
  · rw [heq, Fallible.eval_bind_eq_ok] at h
    obtain ⟨tree, htree, hchild⟩ := h
    exact Or.inr ⟨hfresh, td, pd, tree, htype, hperm, htree, (Except.ok.inj hchild).symm⟩
  · rw [heq] at h
    cases h

theorem union_eq_ok {children : List RewriteRule} :
    Fallible.eval reader (engine.ruleBody next objectType objectId ctx (.union children)) =
        .ok tree ↔
      ctx.depth ≤ engine.config.maxDepth ∧ ∃ trees, List.Forall₂ (fun c child =>
        Fallible.eval reader (engine.ruleBody next objectType objectId ctx c) = .ok child)
          children trees ∧ .union trees = tree := by
  rw [ruleBody, withinDepth_eq_ok, childLoop_eq]
  simp only [Fallible.eval_bind_eq_ok, Fallible.eval_mapM_eq_ok, Fallible.eval_pure,
    Except.ok.injEq]

theorem intersection_eq_ok {children : List RewriteRule} :
    Fallible.eval reader
        (engine.ruleBody next objectType objectId ctx (.intersection children)) =
        .ok tree ↔
      ctx.depth ≤ engine.config.maxDepth ∧ ∃ trees, List.Forall₂ (fun c child =>
        Fallible.eval reader (engine.ruleBody next objectType objectId ctx c) = .ok child)
          children trees ∧ .intersection trees = tree := by
  rw [ruleBody, withinDepth_eq_ok, childLoop_eq]
  simp only [Fallible.eval_bind_eq_ok, Fallible.eval_mapM_eq_ok, Fallible.eval_pure,
    Except.ok.injEq]

theorem exclusion_eq_ok {base excluded : RewriteRule} :
    Fallible.eval reader
        (engine.ruleBody next objectType objectId ctx (.exclusion base excluded)) =
        .ok tree ↔
      ctx.depth ≤ engine.config.maxDepth ∧ ∃ baseTree excludedTree,
        Fallible.eval reader (engine.ruleBody next objectType objectId ctx base) =
          .ok baseTree ∧
        Fallible.eval reader (engine.ruleBody next objectType objectId ctx excluded) =
          .ok excludedTree ∧ .exclusion baseTree excludedTree = tree := by
  rw [ruleBody, withinDepth_eq_ok]
  simp only [Fallible.eval_bind_eq_ok, Fallible.eval_pure, Except.ok.injEq,
    exists_and_left]

theorem arrow_eq_ok {rel perm : String} :
    Fallible.eval reader (engine.ruleBody next objectType objectId ctx (.arrow rel perm)) =
        .ok tree ↔
      ctx.depth ≤ engine.config.maxDepth ∧ ∃ tuples children,
        reader ⟨relationFilter objectType objectId rel, ctx.snapshot⟩ = .ok tuples ∧
        List.Forall₂ (fun t child =>
          Fallible.eval reader (engine.expandTarget next perm ctx t) = .ok child)
            tuples children ∧ .arrow rel perm (children.filterMap id) = tree := by
  rw [ruleBody, withinDepth_eq_ok, expandArrow]
  simp only [Fallible.eval_bind_eq_ok, Fallible.eval_mapM_eq_ok, eval_readTuples,
    Fallible.eval_pure, Except.ok.injEq, exists_and_left]

end

/-- The body of a rule calls `next` one level deeper only. -/
theorem ruleBody_congr {next next' : Expander} {objectType objectId : String}
    {ctx : ExpandContext}
    (hnext : ∀ rule objectType objectId ctx', ctx'.depth = ctx.depth + 1 →
      next rule objectType objectId ctx' = next' rule objectType objectId ctx')
    (rule : RewriteRule) :
    engine.ruleBody next objectType objectId ctx rule =
      engine.ruleBody next' objectType objectId ctx rule := by
  induction rule with
  | this name =>
      simp only [ruleBody, expandThis, hnext _ _ _ { ctx with depth := ctx.depth + 1 } rfl]
  | union children ih => simp only [ruleBody, childLoop_eq, mapM_congr ih]
  | intersection children ih => simp only [ruleBody, childLoop_eq, mapM_congr ih]
  | exclusion base excluded ihBase ihExcluded =>
      simp only [ruleBody, ihBase, ihExcluded]
  | arrow rel perm =>
      have htarget : engine.expandTarget next perm ctx =
          engine.expandTarget next' perm ctx := by
        funext tuple
        simp only [expandTarget]
        split
        · rfl
        · simp only [hnext _ _ _ { ctx with depth := ctx.depth + 1, visited := _ } rfl]
      simp only [ruleBody, expandArrow, htarget]

/-- **The recursion of the source.**  `expandRule` calls itself wherever
`expand_rule` does. -/
theorem expandRule_eq (rule : RewriteRule) (objectType objectId : String)
    (ctx : ExpandContext) :
    engine.expandRule rule objectType objectId ctx =
      engine.ruleBody engine.expandRule objectType objectId ctx rule := by
  by_cases hdepth : ctx.depth ≤ engine.config.maxDepth
  · obtain ⟨remaining, hrem⟩ : ∃ n, engine.config.maxDepth + 1 - ctx.depth = n + 1 :=
      ⟨engine.config.maxDepth - ctx.depth, by omega⟩
    simp only [expandRule, hrem, expandWithin]
    refine ruleBody_congr (fun rule objectType objectId ctx' hctx => ?_) rule
    have hrem' : engine.config.maxDepth + 1 - ctx'.depth = remaining := by omega
    simp only [expandRule, hrem']
  · have hrem : engine.config.maxDepth + 1 - ctx.depth = 0 := by omega
    simp only [expandRule, hrem, expandWithin]
    have hgt : ctx.depth > engine.config.maxDepth := by omega
    cases rule <;> simp [ruleBody, withinDepth, hgt]

end ExpandEngine

end Kraalzibar
