import Kraalzibar.Core.DepthLimit

/-!
# Schemas that grow

A schema may gain types, relations and permissions.  While it keeps every rule, and gives no
permission the name of a relation that was there before, an evaluation that answered under
the old schema takes the same steps under the new one.

* `Schema.ExtendedBy` — the new schema declares all that the old one does, and hides none;
* `CheckEngine.ruleBody_extended`, `ExpandEngine.ruleBody_extended` — one rule;
* `grown_schema_keeps_answers` — every answer of either engine survives.
-/

namespace Kraalzibar

open Foundations

/-- Permissions keep their definitions, and relations are not hidden by new permissions. -/
structure TypeDefinition.ExtendedBy (old new : TypeDefinition) : Prop where
  permission : ∀ name pd, old.getPermission name = some pd → new.getPermission name = some pd
  relation : ∀ name rd, old.getPermission name = none → old.getRelation name = some rd →
    new.getPermission name = none ∧ ∃ rd', new.getRelation name = some rd'

def Schema.ExtendedBy (old new : Schema) : Prop :=
  ∀ name td, old.getType name = some td →
    ∃ td', new.getType name = some td' ∧ td.ExtendedBy td'

theorem TypeDefinition.ExtendedBy.refl (td : TypeDefinition) : td.ExtendedBy td :=
  ⟨fun _ _ h => h, fun _ rd hperm hrel => ⟨hperm, rd, hrel⟩⟩

theorem Schema.ExtendedBy.refl (schema : Schema) : schema.ExtendedBy schema :=
  fun _ td h => ⟨td, h, .refl td⟩

section

variable {old new : Schema} {config : EngineConfig} {reader : TupleReader}

/-- A permission of the old schema has its rule in the new one. -/
theorem Schema.ExtendedBy.permission (h : old.ExtendedBy new) {typeName name : String}
    {td : TypeDefinition} {pd : PermissionDef} (htype : old.getType typeName = some td)
    (hget : td.getPermission name = some pd) :
    ∃ td', new.getType typeName = some td' ∧ td'.getPermission name = some pd := by
  obtain ⟨td', htype', hkept⟩ := h typeName td htype
  exact ⟨td', htype', hkept.permission name pd hget⟩

/-- A name that means a relation in the old schema means one in the new. -/
theorem Schema.ExtendedBy.relation (h : old.ExtendedBy new) {typeName name : String}
    {td : TypeDefinition} {rd : RelationDef} (htype : old.getType typeName = some td)
    (hget : td.getPermission name = none) (hrel : td.getRelation name = some rd) :
    ∃ td' rd', new.getType typeName = some td' ∧ td'.getPermission name = none ∧
      td'.getRelation name = some rd' := by
  obtain ⟨td', htype', hkept⟩ := h typeName td htype
  obtain ⟨hget', rd', hrel'⟩ := hkept.relation name rd hget hrel
  exact ⟨td', rd', htype', hget', hrel'⟩

namespace CheckEngine

theorem evaluateThis_extended (h : old.ExtendedBy new) {next next' : Evaluator}
    (hnext : ∀ rule objectType objectId ctx,
      Extends (Fallible.eval reader (next rule objectType objectId ctx))
        (Fallible.eval reader (next' rule objectType objectId ctx)))
    (name objectType objectId : String) (ctx : CheckContext) :
    Extends
      (Fallible.eval reader (evaluateThis ⟨old, config⟩ next name objectType objectId ctx))
      (Fallible.eval reader (evaluateThis ⟨new, config⟩ next' name objectType objectId ctx)) := by
  intro b hb
  rcases evaluateThis_of_ok hb with ⟨td, pd, htype, hget, hb⟩ | ⟨td, rd, htype, hget, hrel, hb⟩
  · obtain ⟨td', htype', hget'⟩ := h.permission htype hget
    simp only [evaluateThis, htype', hget']
    exact hnext _ _ _ _ b hb
  · obtain ⟨td', rd', htype', hget', hrel'⟩ := h.relation htype hget hrel
    simp only [evaluateThis, htype', hget', hrel']
    exact hb

theorem evaluateTarget_extended (h : old.ExtendedBy new) {next next' : Evaluator}
    (hnext : ∀ rule objectType objectId ctx,
      Extends (Fallible.eval reader (next rule objectType objectId ctx))
        (Fallible.eval reader (next' rule objectType objectId ctx)))
    (perm : String) (ctx : CheckContext) (t : Tuple) :
    Extends (Fallible.eval reader (evaluateTarget ⟨old, config⟩ next perm ctx t))
      (Fallible.eval reader (evaluateTarget ⟨new, config⟩ next' perm ctx t)) := by
  intro b hb
  rcases evaluateTarget_of_ok hb with ⟨hmem, rfl⟩ | ⟨hfresh, td, pd, htype, hget, hb⟩
  · simp only [evaluateTarget, hmem, if_true]
    rfl
  · obtain ⟨td', htype', hget'⟩ := h.permission htype hget
    simp only [evaluateTarget, hfresh, if_false, htype', hget']
    exact hnext _ _ _ _ b hb

/-- **One rule of a check.** -/
theorem ruleBody_extended (h : old.ExtendedBy new) {next next' : Evaluator}
    (hnext : ∀ rule objectType objectId ctx,
      Extends (Fallible.eval reader (next rule objectType objectId ctx))
        (Fallible.eval reader (next' rule objectType objectId ctx)))
    (objectType objectId : String) (ctx : CheckContext) (rule : RewriteRule) :
    Extends
      (Fallible.eval reader (ruleBody ⟨old, config⟩ next objectType objectId ctx rule))
      (Fallible.eval reader (ruleBody ⟨new, config⟩ next' objectType objectId ctx rule)) := by
  induction rule with
  | this name =>
      exact withinDepth_extends id (evaluateThis_extended h hnext name objectType objectId ctx)
  | union children ih =>
      refine withinDepth_extends id ?_
      rw [unionLoop_eq, unionLoop_eq, Fallible.eval_anyM, Fallible.eval_anyM]
      exact .anyM ih
  | intersection children ih =>
      refine withinDepth_extends id ?_
      rw [intersectionLoop_eq, intersectionLoop_eq, Fallible.eval_allM, Fallible.eval_allM]
      exact .allM ih
  | exclusion base excluded ihBase ihExcluded =>
      refine withinDepth_extends id ?_
      rw [Fallible.eval_andNotM, Fallible.eval_andNotM]
      exact .andNotM ihBase ihExcluded
  | arrow rel perm =>
      refine withinDepth_extends id ?_
      simp only [evaluateArrow, Fallible.eval_bind, Fallible.eval_anyM]
      exact (Extends.refl _).bind fun tuples _ =>
        .anyM fun t _ => evaluateTarget_extended h hnext perm ctx t

theorem evaluateWithin_extended (h : old.ExtendedBy new) (n : Nat) (rule : RewriteRule)
    (objectType objectId : String) (ctx : CheckContext) :
    Extends
      (Fallible.eval reader (evaluateWithin ⟨old, config⟩ n rule objectType objectId ctx))
      (Fallible.eval reader (evaluateWithin ⟨new, config⟩ n rule objectType objectId ctx)) := by
  induction n generalizing rule objectType objectId ctx with
  | zero => exact .error _ _
  | succ n ih => exact ruleBody_extended h ih objectType objectId ctx rule

/-- A check that answers keeps its answer when the schema grows. -/
theorem check_extended (h : old.ExtendedBy new) (request : CheckRequest) :
    Extends (Fallible.eval reader (check ⟨old, config⟩ request))
      (Fallible.eval reader (check ⟨new, config⟩ request)) := by
  intro result hresult
  obtain ⟨td, pd, htype, hget, heval⟩ := declared_of_check hresult
  obtain ⟨td', htype', hget'⟩ := h.permission htype hget
  have heval' := evaluateWithin_extended h _ _ _ _ _ _ heval
  have hcheck := @eval_check ⟨new, config⟩ reader request td' pd htype' hget'
  exact hcheck.trans (congrArg (CheckResult.mk <$> ·) heval')

end CheckEngine

namespace ExpandEngine

/-- **One rule of an expansion.** -/
theorem ruleBody_extended (h : old.ExtendedBy new) {next next' : Expander}
    (hnext : ∀ rule objectType objectId ctx,
      Extends (Fallible.eval reader (next rule objectType objectId ctx))
        (Fallible.eval reader (next' rule objectType objectId ctx)))
    (objectType objectId : String) (ctx : ExpandContext) (rule : RewriteRule) :
    Extends
      (Fallible.eval reader (ruleBody ⟨old, config⟩ next objectType objectId ctx rule))
      (Fallible.eval reader (ruleBody ⟨new, config⟩ next' objectType objectId ctx rule)) := by
  induction rule with
  | this name =>
      refine withinDepth_extends le_rfl ?_
      intro tree htree
      rcases expandThis_of_ok htree with
        ⟨td, pd, htype, hget, htree⟩ | ⟨td, rd, htype, hget, hrel, htree⟩
      · obtain ⟨td', htype', hget'⟩ := h.permission htype hget
        simp only [expandThis, htype', hget']
        exact hnext _ _ _ _ tree htree
      · obtain ⟨td', rd', htype', hget', hrel'⟩ := h.relation htype hget hrel
        simp only [expandThis, htype', hget', hrel']
        exact htree
  | union children ih =>
      refine withinDepth_extends le_rfl ?_
      rw [childLoop_eq, childLoop_eq, Fallible.eval_bind, Fallible.eval_bind,
        Fallible.eval_mapM, Fallible.eval_mapM]
      exact (Extends.mapM ih).bind fun trees _ => .refl _
  | intersection children ih =>
      refine withinDepth_extends le_rfl ?_
      rw [childLoop_eq, childLoop_eq, Fallible.eval_bind, Fallible.eval_bind,
        Fallible.eval_mapM, Fallible.eval_mapM]
      exact (Extends.mapM ih).bind fun trees _ => .refl _
  | exclusion base excluded ihBase ihExcluded =>
      refine withinDepth_extends le_rfl ?_
      simp only [Fallible.eval_bind]
      exact ihBase.bind fun baseTree _ => ihExcluded.bind fun excludedTree _ => .refl _
  | arrow rel perm =>
      refine withinDepth_extends le_rfl ?_
      simp only [expandArrow, Fallible.eval_bind, Fallible.eval_mapM]
      refine (Extends.refl _).bind fun tuples _ => Extends.bind (.mapM fun t _ => ?_)
        fun children _ => .refl _
      intro child hchild
      rcases expandTarget_of_ok hchild with
        ⟨hmem, rfl⟩ | ⟨hfresh, td, pd, tree, htype, hget, htree, rfl⟩
      · simp only [expandTarget, hmem, if_true]
        rfl
      · obtain ⟨td', htype', hget'⟩ := h.permission htype hget
        have htree' := hnext _ _ _ _ tree htree
        simp only [expandTarget, hfresh, if_false, htype', hget', Fallible.eval_bind, htree',
          ok_bind]
        rfl

theorem expandWithin_extended (h : old.ExtendedBy new) (n : Nat) (rule : RewriteRule)
    (objectType objectId : String) (ctx : ExpandContext) :
    Extends
      (Fallible.eval reader (expandWithin ⟨old, config⟩ n rule objectType objectId ctx))
      (Fallible.eval reader (expandWithin ⟨new, config⟩ n rule objectType objectId ctx)) := by
  induction n generalizing rule objectType objectId ctx with
  | zero => exact .error _ _
  | succ n ih => exact ruleBody_extended h ih objectType objectId ctx rule

/-- An expansion that answers keeps its tree when the schema grows. -/
theorem expand_extended (h : old.ExtendedBy new) (request : ExpandRequest) :
    Extends (Fallible.eval reader (expand ⟨old, config⟩ request))
      (Fallible.eval reader (expand ⟨new, config⟩ request)) := by
  intro tree htree
  obtain ⟨td, pd, htype, hget, hexpand⟩ := declared_of_expand htree
  obtain ⟨td', htype', hget'⟩ := h.permission htype hget
  rw [@expand_eq ⟨new, config⟩ request td' pd htype' hget']
  exact expandWithin_extended h _ _ _ _ _ _ hexpand

end ExpandEngine

end

/-- **A growing schema keeps every answer**: what a check or an expansion answers under the
old schema it answers under the new one, whatever is read. -/
theorem grown_schema_keeps_answers {old new : Schema} (h : old.ExtendedBy new)
    (config : EngineConfig) (reader : TupleReader) :
    (∀ (request : CheckRequest) (result : CheckResult),
      Fallible.eval reader (CheckEngine.check ⟨old, config⟩ request) = .ok result →
      Fallible.eval reader (CheckEngine.check ⟨new, config⟩ request) = .ok result) ∧
    (∀ (request : ExpandRequest) (tree : ExpandTree),
      Fallible.eval reader (ExpandEngine.expand ⟨old, config⟩ request) = .ok tree →
      Fallible.eval reader (ExpandEngine.expand ⟨new, config⟩ request) = .ok tree) :=
  ⟨fun request => CheckEngine.check_extended h request,
    fun request => ExpandEngine.expand_extended h request⟩

/-- Types that are added at the end. -/
theorem Schema.extendedBy_append (types more : List TypeDefinition) :
    (Schema.mk types).ExtendedBy ⟨types ++ more⟩ := by
  intro name td htype
  refine ⟨td, ?_, .refl td⟩
  have hfind : types.find? (fun t => t.name == name) = some td := htype
  rw [getType, List.find?_append, hfind]
  rfl

/-- The folders, and teams that nothing refers to yet. -/
theorem grown_schema_keeps_answers_teams :
    Fallible.eval (listReader folderTuples)
      (CheckEngine.check ⟨⟨folderSchema.types ++ [⟨"team", [], []⟩]⟩, {}⟩
        ⟨"folder", "a", "open", "user", "alice", none⟩) = .ok ⟨true⟩ := by
  have hold : Fallible.eval (listReader folderTuples) (CheckEngine.check ⟨folderSchema, {}⟩
      ⟨"folder", "a", "open", "user", "alice", none⟩) = .ok ⟨true⟩ := by
    decide +kernel
  exact (grown_schema_keeps_answers (Schema.extendedBy_append folderSchema.types _) {}
    (listReader folderTuples)).1 _ _ hold

end Kraalzibar
