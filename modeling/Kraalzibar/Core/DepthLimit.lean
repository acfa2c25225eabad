import Kraalzibar.Core.CheckCorrect
import Kraalzibar.Core.Expand
import Kraalzibar.Foundations.Outcomes

/-!
# The depth limit and the answers

A run under a higher depth limit takes the same steps as long as the lower one does
not stop it, so it gives the same answers.  `ruleBody_extends` says this for one rule
of either engine: if the deeper calls of a second run answer whatever those of the
first answer, so does the body of the rule.

* `raised_limit_keeps_answers` — an answer of either engine survives a higher limit.
-/

namespace Kraalzibar

open Foundations

/-- The contexts ask about the same subject at the same snapshot. -/
structure CheckContext.Same (ctx ctx' : CheckContext) : Prop where
  subjectType : ctx'.subjectType = ctx.subjectType
  subjectId : ctx'.subjectId = ctx.subjectId
  snapshot : ctx'.snapshot = ctx.snapshot

namespace CheckEngine

variable {engine engine' : CheckEngine} {reader : TupleReader}

theorem relationLoop_same {ctx ctx' : CheckContext} (h : CheckContext.Same ctx ctx')
    (name objectType objectId : String) :
    relationLoop name objectType objectId ctx' =
      relationLoop name objectType objectId ctx := by
  have htuple : evaluateTuple ctx' = evaluateTuple ctx := by
    funext t
    simp only [evaluateTuple, h.subjectType, h.subjectId, h.snapshot]
  simp only [relationLoop, htuple, h.snapshot]

theorem withinDepth_extends {ctx ctx' : CheckContext} {x y : ReadM Bool}
    (hdepth : ctx.depth ≤ engine.config.maxDepth → ctx'.depth ≤ engine'.config.maxDepth)
    (h : Extends (x.eval reader) (y.eval reader)) :
    Extends (Fallible.eval reader (engine.withinDepth ctx x))
      (Fallible.eval reader (engine'.withinDepth ctx' y)) := by
  unfold withinDepth
  by_cases hctx : ctx.depth > engine.config.maxDepth
  · rw [if_pos hctx]
    exact .error _ _
  · have hctx' : ¬ ctx'.depth > engine'.config.maxDepth := by omega
    rw [if_neg hctx, if_neg hctx']
    exact h

/-- **One rule of two checks.**  If the calls of the second answer whatever those of
the first answer, so does the body of the rule. -/
theorem ruleBody_extends (hschema : engine'.schema = engine.schema)
    {next next' : Evaluator} {objectType objectId : String} {ctx ctx' : CheckContext}
    (hsame : CheckContext.Same ctx ctx')
    (hdepth : ctx.depth ≤ engine.config.maxDepth → ctx'.depth ≤ engine'.config.maxDepth)
    (hperm : ∀ name td pd, engine.schema.getType objectType = some td →
      td.getPermission name = some pd →
      Extends
        (Fallible.eval reader
          (next pd.rule objectType objectId { ctx with depth := ctx.depth + 1 }))
        (Fallible.eval reader
          (next' pd.rule objectType objectId { ctx' with depth := ctx'.depth + 1 })))
    (htarget : ∀ perm t,
      Extends (Fallible.eval reader (engine.evaluateTarget next perm ctx t))
        (Fallible.eval reader (engine'.evaluateTarget next' perm ctx' t)))
    (rule : RewriteRule) :
    Extends
      (Fallible.eval reader (engine.ruleBody next objectType objectId ctx rule))
      (Fallible.eval reader (engine'.ruleBody next' objectType objectId ctx' rule)) := by
  induction rule with
  | this name =>
      refine withinDepth_extends hdepth ?_
      intro b hb
      rcases evaluateThis_of_ok hb with
        ⟨td, pd, htype, hget, hb⟩ | ⟨td, rd, htype, hget, hrel, hb⟩
      · simp only [evaluateThis, hschema, htype, hget]
        exact hperm name td pd htype hget b hb
      · simp only [evaluateThis, hschema, htype, hget, hrel, relationLoop_same hsame]
        exact hb
  | union children ih =>
      refine withinDepth_extends hdepth ?_
      rw [unionLoop_eq, unionLoop_eq, Fallible.eval_anyM, Fallible.eval_anyM]
      exact .anyM ih
  | intersection children ih =>
      refine withinDepth_extends hdepth ?_
      rw [intersectionLoop_eq, intersectionLoop_eq, Fallible.eval_allM, Fallible.eval_allM]
      exact .allM ih
  | exclusion base excluded ihBase ihExcluded =>
      refine withinDepth_extends hdepth ?_
      rw [Fallible.eval_andNotM, Fallible.eval_andNotM]
      exact .andNotM ihBase ihExcluded
  | arrow rel perm =>
      refine withinDepth_extends hdepth ?_
      simp only [evaluateArrow, Fallible.eval_bind, Fallible.eval_anyM, hsame.snapshot]
      exact (Extends.refl _).bind fun tuples _ => .anyM fun t _ => htarget perm t

/-- What one target of an arrow answers, if the deeper call does. -/
theorem evaluateTarget_extends (hschema : engine'.schema = engine.schema)
    {next next' : Evaluator} {ctx ctx' : CheckContext} (hvisited : ctx'.visited = ctx.visited)
    (hnext : ∀ rule objectType objectId visited,
      Extends
        (Fallible.eval reader (next rule objectType objectId
          { ctx with depth := ctx.depth + 1, visited }))
        (Fallible.eval reader (next' rule objectType objectId
          { ctx' with depth := ctx'.depth + 1, visited })))
    (perm : String) (t : Tuple) :
    Extends (Fallible.eval reader (engine.evaluateTarget next perm ctx t))
      (Fallible.eval reader (engine'.evaluateTarget next' perm ctx' t)) := by
  intro b hb
  rcases evaluateTarget_of_ok hb with ⟨hmem, rfl⟩ | ⟨hfresh, td, pd, htype, hget, hb⟩
  · simp only [evaluateTarget, hvisited, hmem, if_true]
    rfl
  · simp only [evaluateTarget, hschema, hvisited, hfresh, if_false, htype, hget]
    exact hnext _ _ _ _ b hb

/-- With more levels left, and a limit at least as high, an answer stays. -/
theorem evaluateWithin_extends (hschema : engine'.schema = engine.schema)
    (hlimit : engine.config.maxDepth ≤ engine'.config.maxDepth) {n n' : Nat} (hn : n ≤ n')
    (rule : RewriteRule) (objectType objectId : String) (ctx : CheckContext) :
    Extends (Fallible.eval reader (engine.evaluateWithin n rule objectType objectId ctx))
      (Fallible.eval reader (engine'.evaluateWithin n' rule objectType objectId ctx)) := by
  induction n generalizing n' rule objectType objectId ctx with
  | zero => exact .error _ _
  | succ n ih =>
      obtain ⟨m, rfl⟩ : ∃ m, n' = m + 1 := ⟨n' - 1, by omega⟩
      refine ruleBody_extends hschema ⟨rfl, rfl, rfl⟩ (fun h => h.trans hlimit) ?_ ?_ rule
      · intro name td pd _ _
        exact ih (by omega) _ _ _ _
      · intro perm t
        exact evaluateTarget_extends hschema rfl
          (fun _ _ _ _ => ih (by omega) _ _ _ _) perm t

/-- A check that answers keeps its answer under a higher limit. -/
theorem check_extends (schema : Schema) (reader : TupleReader) (request : CheckRequest)
    {d d' : Nat} (hd : d ≤ d') :
    Extends (Fallible.eval reader (check ⟨schema, ⟨d⟩⟩ request))
      (Fallible.eval reader (check ⟨schema, ⟨d'⟩⟩ request)) := by
  intro result h
  obtain ⟨td, pd, htype, hget, heval⟩ := declared_of_check h
  have hlevels : d + 1 - request.context.depth ≤ d' + 1 - request.context.depth :=
    Nat.sub_le_sub_right (Nat.succ_le_succ hd) _
  have heval' := @evaluateWithin_extends ⟨schema, ⟨d⟩⟩ ⟨schema, ⟨d'⟩⟩ reader rfl hd _ _
    hlevels _ _ _ _ _ heval
  have hcheck := @eval_check ⟨schema, ⟨d'⟩⟩ reader request td pd htype hget
  exact hcheck.trans (congrArg (CheckResult.mk <$> ·) heval')

end CheckEngine

namespace ExpandEngine

variable {engine engine' : ExpandEngine} {reader : TupleReader}

theorem withinDepth_extends {ctx : ExpandContext} {x y : ReadM ExpandTree}
    (hlimit : engine.config.maxDepth ≤ engine'.config.maxDepth)
    (h : Extends (x.eval reader) (y.eval reader)) :
    Extends (Fallible.eval reader (engine.withinDepth ctx x))
      (Fallible.eval reader (engine'.withinDepth ctx y)) := by
  intro tree htree
  obtain ⟨hdepth, hx⟩ := withinDepth_eq_ok.mp htree
  exact withinDepth_eq_ok.mpr ⟨hdepth.trans hlimit, h tree hx⟩

/-- **One rule of two expansions.**  If the deeper calls of the second answer whatever
those of the first answer, so does the body of the rule. -/
theorem ruleBody_extends (hschema : engine'.schema = engine.schema)
    (hlimit : engine.config.maxDepth ≤ engine'.config.maxDepth)
    {next next' : Expander}
    (hnext : ∀ rule objectType objectId ctx,
      Extends (Fallible.eval reader (next rule objectType objectId ctx))
        (Fallible.eval reader (next' rule objectType objectId ctx)))
    (objectType objectId : String) (ctx : ExpandContext) (rule : RewriteRule) :
    Extends
      (Fallible.eval reader (engine.ruleBody next objectType objectId ctx rule))
      (Fallible.eval reader (engine'.ruleBody next' objectType objectId ctx rule)) := by
  induction rule with
  | this name =>
      refine withinDepth_extends hlimit ?_
      intro tree htree
      rcases expandThis_of_ok htree with
        ⟨td, pd, htype, hget, htree⟩ | ⟨td, rd, htype, hget, hrel, htree⟩
      · simp only [expandThis, hschema, htype, hget]
        exact hnext _ _ _ _ tree htree
      · simp only [expandThis, hschema, htype, hget, hrel]
        exact htree
  | union children ih =>
      refine withinDepth_extends hlimit ?_
      rw [childLoop_eq, childLoop_eq, Fallible.eval_bind, Fallible.eval_bind,
        Fallible.eval_mapM, Fallible.eval_mapM]
      exact (Extends.mapM ih).bind fun trees _ => .refl _
  | intersection children ih =>
      refine withinDepth_extends hlimit ?_
      rw [childLoop_eq, childLoop_eq, Fallible.eval_bind, Fallible.eval_bind,
        Fallible.eval_mapM, Fallible.eval_mapM]
      exact (Extends.mapM ih).bind fun trees _ => .refl _
  | exclusion base excluded ihBase ihExcluded =>
      refine withinDepth_extends hlimit ?_
      simp only [Fallible.eval_bind]
      exact ihBase.bind fun baseTree _ => ihExcluded.bind fun excludedTree _ => .refl _
  | arrow rel perm =>
      refine withinDepth_extends hlimit ?_
      simp only [expandArrow, Fallible.eval_bind, Fallible.eval_mapM]
      refine (Extends.refl _).bind fun tuples _ => Extends.bind (.mapM fun t _ => ?_)
        fun children _ => .refl _
      intro child hchild
      rcases expandTarget_of_ok hchild with
        ⟨hmem, rfl⟩ | ⟨hfresh, td, pd, tree, htype, hget, htree, rfl⟩
      · simp only [expandTarget, hmem, if_true]
        rfl
      · have htree' := hnext _ _ _ _ tree htree
        simp only [expandTarget, hschema, hfresh, if_false, htype, hget, Fallible.eval_bind,
          htree', ok_bind]
        rfl

theorem expandWithin_extends (hschema : engine'.schema = engine.schema)
    (hlimit : engine.config.maxDepth ≤ engine'.config.maxDepth) {n n' : Nat} (hn : n ≤ n')
    (rule : RewriteRule) (objectType objectId : String) (ctx : ExpandContext) :
    Extends (Fallible.eval reader (engine.expandWithin n rule objectType objectId ctx))
      (Fallible.eval reader (engine'.expandWithin n' rule objectType objectId ctx)) := by
  induction n generalizing n' rule objectType objectId ctx with
  | zero => exact .error _ _
  | succ n ih =>
      obtain ⟨m, rfl⟩ : ∃ m, n' = m + 1 := ⟨n' - 1, by omega⟩
      exact ruleBody_extends hschema hlimit (fun _ _ _ _ => ih (by omega) _ _ _ _) _ _ _ _

/-- An expansion that answers keeps its tree under a higher limit. -/
theorem expand_extends (schema : Schema) (reader : TupleReader) (request : ExpandRequest)
    {d d' : Nat} (hd : d ≤ d') :
    Extends (Fallible.eval reader (expand ⟨schema, ⟨d⟩⟩ request))
      (Fallible.eval reader (expand ⟨schema, ⟨d'⟩⟩ request)) := by
  intro tree h
  obtain ⟨td, pd, htype, hget, hexpand⟩ := declared_of_expand h
  rw [@expand_eq ⟨schema, ⟨d'⟩⟩ request td pd htype hget]
  exact @expandWithin_extends ⟨schema, ⟨d⟩⟩ ⟨schema, ⟨d'⟩⟩ reader rfl hd _ _
    (Nat.succ_le_succ hd) _ _ _ _ _ hexpand

end ExpandEngine

/-- **Raising the depth limit never changes an answer** of either engine, whatever the
schema and whatever the reads return. -/
theorem raised_limit_keeps_answers (schema : Schema) (reader : TupleReader) {d d' : Nat}
    (hd : d ≤ d') :
    (∀ (request : CheckRequest) (result : CheckResult),
      Fallible.eval reader (CheckEngine.check ⟨schema, ⟨d⟩⟩ request) = .ok result →
      Fallible.eval reader (CheckEngine.check ⟨schema, ⟨d'⟩⟩ request) = .ok result) ∧
    (∀ (request : ExpandRequest) (tree : ExpandTree),
      Fallible.eval reader (ExpandEngine.expand ⟨schema, ⟨d⟩⟩ request) = .ok tree →
      Fallible.eval reader (ExpandEngine.expand ⟨schema, ⟨d'⟩⟩ request) = .ok tree) :=
  ⟨fun request => CheckEngine.check_extends schema reader request hd,
    fun request => ExpandEngine.expand_extends schema reader request hd⟩

/-- Folder `b` shows itself to alice at the first level. -/
theorem raised_limit_keeps_answers_folder :
    Fallible.eval (listReader folderTuples) (CheckEngine.check ⟨folderSchema, ⟨0⟩⟩
      ⟨"folder", "b", "view", "user", "alice", none⟩) = .ok ⟨true⟩ ∧
    Fallible.eval (listReader folderTuples) (CheckEngine.check ⟨folderSchema, ⟨6⟩⟩
      ⟨"folder", "b", "view", "user", "alice", none⟩) = .ok ⟨true⟩ := by
  have hlow : Fallible.eval (listReader folderTuples) (CheckEngine.check ⟨folderSchema, ⟨0⟩⟩
      ⟨"folder", "b", "view", "user", "alice", none⟩) = .ok ⟨true⟩ := by
    decide +kernel
  have hkeep := raised_limit_keeps_answers folderSchema (listReader folderTuples)
    (Nat.zero_le 6)
  exact ⟨hlow, hkeep.1 _ _ hlow⟩

end Kraalzibar
