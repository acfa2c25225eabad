import Kraalzibar.Core.Check
import Kraalzibar.Core.Expand

/-!
# Evaluations pass their snapshot on

Every `read_tuples` call an engine makes carries the request's snapshot, and the
first read that fails ends the evaluation with an error.  Both hold whatever the
earlier reads returned, so they can be used while the store moves.
-/

namespace Kraalzibar

open Foundations

/-- Every read of the program is at `snapshot`, and a failed read ends it. -/
def ReadsAt {α : Type} (snapshot : Option SnapshotToken) (x : ReadM α) : Prop :=
  Fallible.Guarded (fun call => call.snapshot = snapshot)
    (fun _ reply => ∃ e, reply = .error e) x

theorem readTuples_readsAt (filter : TupleFilter) (snapshot : Option SnapshotToken) :
    ReadsAt snapshot (readTuples filter snapshot) :=
  Client.Guarded.request rfl (fun _ h => h)

variable {snapshot : Option SnapshotToken}

namespace CheckEngine

variable {engine : CheckEngine}

theorem evaluateTuple_readsAt {ctx : CheckContext} (hctx : ctx.snapshot = snapshot)
    (t : Tuple) : ReadsAt snapshot (evaluateTuple ctx t) := by
  unfold evaluateTuple
  rw [hctx]
  cases t.subject.subjectRelation with
  | none => exact .pure _
  | some rel =>
      exact (readTuples_readsAt _ _).bind fun tuples => .pure (!tuples.isEmpty)

theorem relationLoop_readsAt (name objectType objectId : String) {ctx : CheckContext}
    (hctx : ctx.snapshot = snapshot) :
    ReadsAt snapshot (relationLoop name objectType objectId ctx) := by
  unfold relationLoop
  rw [hctx]
  exact (readTuples_readsAt _ _).bind fun tuples =>
    .anyM fun t _ => evaluateTuple_readsAt hctx t

/-- **One rule.**  If the deeper evaluations read at the snapshot, so does the
body of a rule. -/
theorem ruleBody_readsAt {next : Evaluator}
    (hnext : ∀ rule objectType objectId ctx, ctx.snapshot = snapshot →
      ReadsAt snapshot (next rule objectType objectId ctx))
    {objectType objectId : String} {ctx : CheckContext} (hctx : ctx.snapshot = snapshot)
    (rule : RewriteRule) :
    ReadsAt snapshot (engine.ruleBody next objectType objectId ctx rule) := by
  have hdepth : ∀ {x}, ReadsAt snapshot x → ReadsAt snapshot (engine.withinDepth ctx x) := by
    intro x hx
    unfold withinDepth
    split
    · exact .throw _
    · exact hx
  induction rule with
  | this name =>
      refine hdepth ?_
      rcases evaluateThis_cases engine next name objectType objectId ctx with
        ⟨td, pd, -, -, heq⟩ | ⟨td, rd, -, -, -, heq⟩ | ⟨e, -, heq⟩
      · rw [heq]
        exact hnext _ _ _ _ hctx
      · rw [heq]
        exact relationLoop_readsAt name objectType objectId hctx
      · rw [heq]
        exact .throw e
  | union children ih =>
      refine hdepth ?_
      rw [unionLoop_eq]
      exact .anyM ih
  | intersection children ih =>
      refine hdepth ?_
      rw [intersectionLoop_eq]
      exact .allM ih
  | exclusion base excluded ihBase ihExcluded => exact hdepth (.andNotM ihBase ihExcluded)
  | arrow rel perm =>
      refine hdepth ?_
      unfold evaluateArrow
      rw [hctx]
      refine (readTuples_readsAt _ _).bind fun tuples => .anyM fun t _ => ?_
      rcases evaluateTarget_cases engine next perm ctx t with
        ⟨-, heq⟩ | ⟨-, td, pd, -, -, heq⟩ | ⟨-, e, -, heq⟩
      · rw [heq]
        exact .pure false
      · rw [heq]
        exact hnext _ _ _ _ hctx
      · rw [heq]
        exact .throw e

theorem evaluateWithin_readsAt (remaining : Nat) (rule : RewriteRule)
    (objectType objectId : String) {ctx : CheckContext} (hctx : ctx.snapshot = snapshot) :
    ReadsAt snapshot (engine.evaluateWithin remaining rule objectType objectId ctx) := by
  induction remaining generalizing rule objectType objectId ctx with
  | zero => exact .throw _
  | succ n ih => exact ruleBody_readsAt (fun rule ot oi ctx hctx => ih rule ot oi hctx) hctx rule

/-- **A check reads at its request's snapshot only.** -/
theorem check_readsAt {request : CheckRequest} (hrequest : request.snapshot = snapshot) :
    ReadsAt snapshot (engine.check request) := by
  have hctx : request.context.snapshot = snapshot := hrequest
  unfold check
  split
  · exact .throw _
  · split
    · exact .throw _
    · exact (evaluateWithin_readsAt _ _ _ _ hctx).bind fun allowed => .pure _

end CheckEngine

namespace ExpandEngine

variable {engine : ExpandEngine}

theorem expandRelation_readsAt (name objectType objectId : String)
    {ctx : ExpandContext} (hctx : ctx.snapshot = snapshot) :
    ReadsAt snapshot (expandRelation name objectType objectId ctx) := by
  unfold expandRelation
  rw [hctx]
  refine (readTuples_readsAt _ _).bind fun tuples => ?_
  refine Fallible.Guarded.bind (.mapM fun t _ => ?_) fun leaves => .pure _
  unfold expandTuple
  rw [hctx]
  cases t.subject.subjectRelation with
  | none => exact .pure _
  | some rel => exact (readTuples_readsAt _ _).bind fun tuples => .pure _

/-- **One rule.**  If the deeper expansions read at the snapshot, so does the
body of a rule. -/
theorem ruleBody_readsAt {next : Expander}
    (hnext : ∀ rule objectType objectId ctx, ctx.snapshot = snapshot →
      ReadsAt snapshot (next rule objectType objectId ctx))
    {objectType objectId : String} {ctx : ExpandContext} (hctx : ctx.snapshot = snapshot)
    (rule : RewriteRule) :
    ReadsAt snapshot (engine.ruleBody next objectType objectId ctx rule) := by
  have hdepth : ∀ {x}, ReadsAt snapshot x → ReadsAt snapshot (engine.withinDepth ctx x) := by
    intro x hx
    unfold withinDepth
    split
    · exact .throw _
    · exact hx
  induction rule with
  | this name =>
      refine hdepth ?_
      rcases expandThis_cases engine next name objectType objectId ctx with
        ⟨td, pd, -, -, heq⟩ | ⟨td, rd, -, -, -, heq⟩ | ⟨e, -, heq⟩
      · rw [heq]
        exact hnext _ _ _ _ hctx
      · rw [heq]
        exact expandRelation_readsAt name objectType objectId hctx
      · rw [heq]
        exact .throw e
  | union children ih =>
      refine hdepth ?_
      rw [childLoop_eq]
      exact (Fallible.Guarded.mapM ih).bind fun trees => .pure _
  | intersection children ih =>
      refine hdepth ?_
      rw [childLoop_eq]
      exact (Fallible.Guarded.mapM ih).bind fun trees => .pure _
  | exclusion base excluded ihBase ihExcluded =>
      exact hdepth (ihBase.bind fun _ => ihExcluded.bind fun _ => .pure _)
  | arrow rel perm =>
      refine hdepth ?_
      unfold expandArrow
      rw [hctx]
      refine (readTuples_readsAt _ _).bind fun tuples => ?_
      refine Fallible.Guarded.bind (.mapM fun t _ => ?_) fun children => .pure _
      rcases expandTarget_cases engine next perm ctx t with
        ⟨-, heq⟩ | ⟨-, td, pd, -, -, heq⟩ | ⟨-, e, -, heq⟩
      · rw [heq]
        exact .pure none
      · rw [heq]
        refine Fallible.Guarded.bind ?_ fun tree => .pure (some tree)
        exact hnext _ _ _ _ hctx
      · rw [heq]
        exact .throw e

theorem expandWithin_readsAt (remaining : Nat) (rule : RewriteRule)
    (objectType objectId : String) {ctx : ExpandContext} (hctx : ctx.snapshot = snapshot) :
    ReadsAt snapshot (engine.expandWithin remaining rule objectType objectId ctx) := by
  induction remaining generalizing rule objectType objectId ctx with
  | zero => exact .throw _
  | succ n ih => exact ruleBody_readsAt (fun rule ot oi ctx hctx => ih rule ot oi hctx) hctx rule

/-- **An expansion reads at its request's snapshot only.** -/
theorem expand_readsAt {request : ExpandRequest} (hrequest : request.snapshot = snapshot) :
    ReadsAt snapshot (engine.expand request) := by
  unfold expand
  split
  · exact .throw _
  · split
    · exact .throw _
    · exact expandWithin_readsAt _ _ _ _ hrequest

end ExpandEngine

end Kraalzibar
