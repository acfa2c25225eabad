import Kraalzibar.Core.Pinned
import Kraalzibar.Foundations.Contracts

/-!
# When an evaluation fails

An engine stops with a storage error only at a read that failed.  So over a reader that
never fails at the request's snapshot, whatever it returns, the errors left are those of
the schema and of the depth limit.
-/

namespace Kraalzibar

open Foundations

/-- A read failed. -/
def CheckError.IsStorage (e : CheckError) : Prop :=
  ∃ message, e = .storageError message

/-- Every read is at `snapshot`, and while none fails there is no storage error. -/
def FailsWithReads {α : Type} (snapshot : Option SnapshotToken) (x : ReadM α) : Prop :=
  Fallible.Meets (fun call => call.snapshot = snapshot)
    (fun _ reply => ∃ tuples, reply = .ok tuples) (fun e => ¬ e.IsStorage) x

theorem readTuples_failsWithReads (filter : TupleFilter) (snapshot : Option SnapshotToken) :
    FailsWithReads snapshot (readTuples filter snapshot) := by
  refine Client.Meets.imp (Client.Meets.request rfl) ?_
  intro reply hreply e heq
  obtain ⟨tuples, rfl⟩ := hreply
  cases heq

variable {snapshot : Option SnapshotToken}

namespace CheckEngine

variable {engine : CheckEngine}

theorem withinDepth_failsWithReads {ctx : CheckContext} {x : ReadM Bool}
    (hx : FailsWithReads snapshot x) : FailsWithReads snapshot (engine.withinDepth ctx x) := by
  unfold withinDepth
  split
  · exact .throw nofun
  · exact hx

theorem relationLoop_failsWithReads (name objectType objectId : String) {ctx : CheckContext}
    (hctx : ctx.snapshot = snapshot) :
    FailsWithReads snapshot (relationLoop name objectType objectId ctx) := by
  unfold relationLoop
  rw [hctx]
  refine (readTuples_failsWithReads _ _).bind fun tuples => .anyM fun t _ => ?_
  unfold evaluateTuple
  rw [hctx]
  cases t.subject.subjectRelation with
  | none => exact .pure _
  | some rel => exact (readTuples_failsWithReads _ _).bind fun tuples => .pure _

/-- The deeper evaluations read at the snapshot and fail with their reads. -/
abbrev NextFailsWithReads (snapshot : Option SnapshotToken) (next : Evaluator) : Prop :=
  ∀ rule objectType objectId ctx, ctx.snapshot = snapshot →
    FailsWithReads snapshot (next rule objectType objectId ctx)

variable {next : Evaluator} {ctx : CheckContext}

theorem evaluateThis_failsWithReads (hnext : NextFailsWithReads snapshot next)
    (hctx : ctx.snapshot = snapshot) (name objectType objectId : String) :
    FailsWithReads snapshot (engine.evaluateThis next name objectType objectId ctx) := by
  unfold evaluateThis
  split
  · exact .throw nofun
  · split
    · exact hnext _ _ _ _ hctx
    · split
      · exact relationLoop_failsWithReads name objectType objectId hctx
      · exact .throw nofun

theorem evaluateArrow_failsWithReads (hnext : NextFailsWithReads snapshot next)
    (hctx : ctx.snapshot = snapshot) (rel perm objectType objectId : String) :
    FailsWithReads snapshot (engine.evaluateArrow next rel perm objectType objectId ctx) := by
  unfold evaluateArrow
  rw [hctx]
  refine (readTuples_failsWithReads _ _).bind fun tuples => .anyM fun t _ => ?_
  unfold evaluateTarget
  dsimp only
  split
  · exact .pure false
  · split
    · exact .throw nofun
    · split
      · exact .throw nofun
      · exact hnext _ _ _ _ hctx

/-- **One rule.** -/
theorem ruleBody_failsWithReads (hnext : NextFailsWithReads snapshot next)
    (hctx : ctx.snapshot = snapshot) (objectType objectId : String) (rule : RewriteRule) :
    FailsWithReads snapshot (engine.ruleBody next objectType objectId ctx rule) := by
  induction rule with
  | this name =>
      exact withinDepth_failsWithReads
        (evaluateThis_failsWithReads hnext hctx name objectType objectId)
  | union children ih =>
      refine withinDepth_failsWithReads ?_
      rw [unionLoop_eq]
      exact .anyM ih
  | intersection children ih =>
      refine withinDepth_failsWithReads ?_
      rw [intersectionLoop_eq]
      exact .allM ih
  | exclusion base excluded ihBase ihExcluded =>
      exact withinDepth_failsWithReads (.andNotM ihBase ihExcluded)
  | arrow rel perm =>
      exact withinDepth_failsWithReads
        (evaluateArrow_failsWithReads hnext hctx rel perm objectType objectId)

theorem evaluateWithin_failsWithReads (remaining : Nat) :
    NextFailsWithReads snapshot (engine.evaluateWithin remaining) := by
  induction remaining with
  | zero => exact fun _ _ _ _ _ => .throw nofun
  | succ n ih =>
      intro rule objectType objectId ctx hctx
      exact ruleBody_failsWithReads ih hctx objectType objectId rule

/-- **A check fails with a storage error only if one of its reads failed.** -/
theorem check_failsWithReads {request : CheckRequest} (hrequest : request.snapshot = snapshot) :
    FailsWithReads snapshot (engine.check request) := by
  unfold check
  split
  · exact .throw nofun
  · split
    · exact .throw nofun
    · exact (evaluateWithin_failsWithReads _ _ _ _ _ hrequest).bind fun allowed => .pure _

end CheckEngine

namespace ExpandEngine

variable {engine : ExpandEngine}

theorem withinDepth_failsWithReads {ctx : ExpandContext} {x : ReadM ExpandTree}
    (hx : FailsWithReads snapshot x) : FailsWithReads snapshot (engine.withinDepth ctx x) := by
  unfold withinDepth
  split
  · exact .throw nofun
  · exact hx

theorem expandRelation_failsWithReads (name objectType objectId : String)
    {ctx : ExpandContext} (hctx : ctx.snapshot = snapshot) :
    FailsWithReads snapshot (expandRelation name objectType objectId ctx) := by
  unfold expandRelation
  rw [hctx]
  refine (readTuples_failsWithReads _ _).bind fun tuples => ?_
  refine Fallible.Meets.bind (.mapM fun t _ => ?_) fun leaves => .pure _
  unfold expandTuple
  rw [hctx]
  cases t.subject.subjectRelation with
  | none => exact .pure _
  | some rel => exact (readTuples_failsWithReads _ _).bind fun tuples => .pure _

/-- The deeper expansions read at the snapshot and fail with their reads. -/
abbrev NextFailsWithReads (snapshot : Option SnapshotToken) (next : Expander) : Prop :=
  ∀ rule objectType objectId ctx, ctx.snapshot = snapshot →
    FailsWithReads snapshot (next rule objectType objectId ctx)

variable {next : Expander} {ctx : ExpandContext}

theorem expandThis_failsWithReads (hnext : NextFailsWithReads snapshot next)
    (hctx : ctx.snapshot = snapshot) (name objectType objectId : String) :
    FailsWithReads snapshot (engine.expandThis next name objectType objectId ctx) := by
  unfold expandThis
  split
  · exact .throw nofun
  · split
    · exact hnext _ _ _ _ hctx
    · split
      · exact expandRelation_failsWithReads name objectType objectId hctx
      · exact .throw nofun

theorem expandArrow_failsWithReads (hnext : NextFailsWithReads snapshot next)
    (hctx : ctx.snapshot = snapshot) (rel perm objectType objectId : String) :
    FailsWithReads snapshot (engine.expandArrow next rel perm objectType objectId ctx) := by
  unfold expandArrow
  rw [hctx]
  refine (readTuples_failsWithReads _ _).bind fun tuples => ?_
  refine Fallible.Meets.bind (.mapM fun t _ => ?_) fun children => .pure _
  unfold expandTarget
  dsimp only
  split
  · exact .pure none
  · split
    · exact .throw nofun
    · split
      · exact .throw nofun
      · refine Fallible.Meets.bind ?_ fun tree => .pure (some tree)
        exact hnext _ _ _ _ hctx

/-- **One rule.** -/
theorem ruleBody_failsWithReads (hnext : NextFailsWithReads snapshot next)
    (hctx : ctx.snapshot = snapshot) (objectType objectId : String) (rule : RewriteRule) :
    FailsWithReads snapshot (engine.ruleBody next objectType objectId ctx rule) := by
  induction rule with
  | this name =>
      exact withinDepth_failsWithReads
        (expandThis_failsWithReads hnext hctx name objectType objectId)
  | union children ih =>
      refine withinDepth_failsWithReads ?_
      rw [childLoop_eq]
      exact (Fallible.Meets.mapM ih).bind fun trees => .pure _
  | intersection children ih =>
      refine withinDepth_failsWithReads ?_
      rw [childLoop_eq]
      exact (Fallible.Meets.mapM ih).bind fun trees => .pure _
  | exclusion base excluded ihBase ihExcluded =>
      exact withinDepth_failsWithReads
        (ihBase.bind fun _ => ihExcluded.bind fun _ => .pure _)
  | arrow rel perm =>
      exact withinDepth_failsWithReads
        (expandArrow_failsWithReads hnext hctx rel perm objectType objectId)

theorem expandWithin_failsWithReads (remaining : Nat) :
    NextFailsWithReads snapshot (engine.expandWithin remaining) := by
  induction remaining with
  | zero => exact fun _ _ _ _ _ => .throw nofun
  | succ n ih =>
      intro rule objectType objectId ctx hctx
      exact ruleBody_failsWithReads ih hctx objectType objectId rule

/-- **An expansion fails with a storage error only if one of its reads failed.** -/
theorem expand_failsWithReads {request : ExpandRequest}
    (hrequest : request.snapshot = snapshot) :
    FailsWithReads snapshot (engine.expand request) := by
  unfold expand
  split
  · exact .throw nofun
  · split
    · exact .throw nofun
    · exact expandWithin_failsWithReads _ _ _ _ _ hrequest

end ExpandEngine

end Kraalzibar
