import Kraalzibar.Core.CheckCorrect
import Kraalzibar.Foundations.Outcomes

/-!
# The order of the rows

A store may return the rows of a read in any order.  The check engine stops at the
first tuple that grants and at the first one that fails, so the order can decide
whether it answers.  It never decides what it answers.

* `SameRows` — readers that differ in the order of what they return;
* `row_order_never_flips_answer` — two checks that answer give the same answer;
* `answer_depends_on_row_order` — a check that answers in one order and fails in another.
-/

namespace Kraalzibar

open Foundations

/-- Every call returns the same tuples from both readers, in any order. -/
def SameRows (reader reader' : TupleReader) : Prop :=
  ∀ call, ∃ tuples tuples', reader call = .ok tuples ∧ reader' call = .ok tuples' ∧
    tuples.Perm tuples'

namespace CheckEngine

variable {engine : CheckEngine} {reader reader' : TupleReader}

theorem withinDepth_agrees {ctx : CheckContext} {x : ReadM Bool}
    (h : Agrees (x.eval reader) (x.eval reader')) :
    Agrees (Fallible.eval reader (engine.withinDepth ctx x))
      (Fallible.eval reader' (engine.withinDepth ctx x)) := by
  unfold withinDepth
  split
  · exact nofun
  · exact h

/-- A loop over the rows of a read agrees where its iterations do. -/
theorem readLoop_agrees (hrows : SameRows reader reader') {filter : TupleFilter}
    {snapshot : Option SnapshotToken} {f : Tuple → ReadM Bool}
    (h : ∀ t, Agrees (Fallible.eval reader (f t)) (Fallible.eval reader' (f t))) :
    Agrees (Fallible.eval reader (readTuples filter snapshot >>= fun tuples => tuples.anyM f))
      (Fallible.eval reader'
        (readTuples filter snapshot >>= fun tuples => tuples.anyM f)) := by
  obtain ⟨tuples, tuples', hread, hread', hperm⟩ := hrows ⟨filter, snapshot⟩
  simp only [Fallible.eval_bind, eval_readTuples, hread, hread', ok_bind, Fallible.eval_anyM]
  exact .anyM (fun _ => hperm.mem_iff) fun t _ => h t

theorem evaluateTuple_agrees (hrows : SameRows reader reader') (ctx : CheckContext)
    (t : Tuple) :
    Agrees (Fallible.eval reader (evaluateTuple ctx t))
      (Fallible.eval reader' (evaluateTuple ctx t)) := by
  unfold evaluateTuple
  split
  · intro a b ha hb
    exact Except.ok.inj (ha.symm.trans hb)
  · next rel _ =>
      obtain ⟨tuples, tuples', hread, hread', hperm⟩ := hrows
        ⟨usersetFilter t.subject.subjectType t.subject.subjectId rel ctx.subjectType
          ctx.subjectId, ctx.snapshot⟩
      simp only [Fallible.eval_bind, eval_readTuples, hread, hread', ok_bind]
      intro a b ha hb
      obtain rfl := Except.ok.inj ha
      obtain rfl := Except.ok.inj hb
      rw [hperm.isEmpty_eq]

/-- **One rule.**  If the deeper evaluations agree, so does the body of a rule. -/
theorem ruleBody_agrees (hrows : SameRows reader reader') {next : Evaluator}
    (hnext : ∀ rule objectType objectId ctx,
      Agrees (Fallible.eval reader (next rule objectType objectId ctx))
        (Fallible.eval reader' (next rule objectType objectId ctx)))
    (objectType objectId : String) (ctx : CheckContext) (rule : RewriteRule) :
    Agrees (Fallible.eval reader (engine.ruleBody next objectType objectId ctx rule))
      (Fallible.eval reader' (engine.ruleBody next objectType objectId ctx rule)) := by
  induction rule with
  | this name =>
      refine withinDepth_agrees ?_
      rcases evaluateThis_cases engine next name objectType objectId ctx with
        ⟨td, pd, -, -, heq⟩ | ⟨td, rd, -, -, -, heq⟩ | ⟨e, -, heq⟩
      · rw [heq]
        exact hnext _ _ _ _
      · rw [heq]
        exact readLoop_agrees hrows (evaluateTuple_agrees hrows ctx)
      · rw [heq]
        exact nofun
  | union children ih =>
      refine withinDepth_agrees ?_
      rw [unionLoop_eq, Fallible.eval_anyM, Fallible.eval_anyM]
      exact .anyM (fun _ => Iff.rfl) ih
  | intersection children ih =>
      refine withinDepth_agrees ?_
      rw [intersectionLoop_eq, Fallible.eval_allM, Fallible.eval_allM]
      exact .allM ih
  | exclusion base excluded ihBase ihExcluded =>
      refine withinDepth_agrees ?_
      rw [Fallible.eval_andNotM, Fallible.eval_andNotM]
      exact .andNotM ihBase ihExcluded
  | arrow rel perm =>
      refine withinDepth_agrees ?_
      refine readLoop_agrees hrows fun t => ?_
      rcases evaluateTarget_cases engine next perm ctx t with
        ⟨-, heq⟩ | ⟨-, td, pd, -, -, heq⟩ | ⟨-, e, -, heq⟩
      · rw [heq]
        intro a b ha hb
        exact Except.ok.inj (ha.symm.trans hb)
      · rw [heq]
        exact hnext _ _ _ _
      · rw [heq]
        exact nofun

theorem evaluateWithin_agrees (hrows : SameRows reader reader') (n : Nat)
    (rule : RewriteRule) (objectType objectId : String) (ctx : CheckContext) :
    Agrees (Fallible.eval reader (engine.evaluateWithin n rule objectType objectId ctx))
      (Fallible.eval reader' (engine.evaluateWithin n rule objectType objectId ctx)) := by
  induction n generalizing rule objectType objectId ctx with
  | zero => exact nofun
  | succ n ih => exact ruleBody_agrees hrows ih objectType objectId ctx rule

end CheckEngine

/-- **The order of the rows never flips an answer.**  Over two readers that return the
same tuples in different orders, two checks that both answer give the same answer. -/
theorem row_order_never_flips_answer (engine : CheckEngine) {reader reader' : TupleReader}
    (hrows : SameRows reader reader') (request : CheckRequest) {result result' : CheckResult}
    (h : Fallible.eval reader (engine.check request) = .ok result)
    (h' : Fallible.eval reader' (engine.check request) = .ok result') : result = result' := by
  obtain ⟨td, pd, htype, hget, heval⟩ := CheckEngine.declared_of_check h
  obtain ⟨td', pd', htype', hget', heval'⟩ := CheckEngine.declared_of_check h'
  obtain rfl : td = td' := Option.some.inj (htype.symm.trans htype')
  obtain rfl : pd = pd' := Option.some.inj (hget.symm.trans hget')
  have hallowed : result.allowed = result'.allowed :=
    CheckEngine.evaluateWithin_agrees hrows _ _ _ _ _ _ _ heval heval'
  cases result
  cases result'
  exact congrArg CheckResult.mk hallowed

theorem sameRows_listReader {T T' : List Tuple} (h : T.Perm T') :
    SameRows (listReader T) (listReader T') :=
  fun _ => ⟨_, _, rfl, rfl, h.filter _⟩

/-- Bob sees neither folder, in whichever order the tuples are read. -/
theorem row_order_never_flips_answer_bob :
    ∃ result,
      Fallible.eval (listReader folderTuples) (CheckEngine.check ⟨folderSchema, {}⟩
        ⟨"folder", "a", "view", "user", "bob", none⟩) = .ok result ∧
      Fallible.eval (listReader folderTuples.reverse) (CheckEngine.check ⟨folderSchema, {}⟩
        ⟨"folder", "a", "view", "user", "bob", none⟩) = .ok result := by
  have h : Fallible.eval (listReader folderTuples) (CheckEngine.check ⟨folderSchema, {}⟩
      ⟨"folder", "a", "view", "user", "bob", none⟩) = .ok ⟨false⟩ := by
    decide +kernel
  have h' : Fallible.eval (listReader folderTuples.reverse)
      (CheckEngine.check ⟨folderSchema, {}⟩
        ⟨"folder", "a", "view", "user", "bob", none⟩) = .ok ⟨false⟩ := by
    decide +kernel
  have hsame := row_order_never_flips_answer ⟨folderSchema, {}⟩
    (sameRows_listReader (List.reverse_perm folderTuples).symm) _ h h'
  exact ⟨_, h, h'.trans (congrArg _ hsame.symm)⟩

/-- A document in a folder that alice may view, and attached to a user, for whom there is
no permission `view`. -/
def attachedSchema : Schema where
  types :=
    [{ name := "user", relations := [], permissions := [] },
     { name := "folder"
       relations := [⟨"viewer", [⟨"user", none⟩]⟩]
       permissions := [⟨"view", .this "viewer"⟩] },
     { name := "document"
       relations := [⟨"parent", [⟨"folder", none⟩, ⟨"user", none⟩]⟩]
       permissions := [⟨"view", .arrow "parent" "view"⟩] }]

def attachedTuples : List Tuple :=
  [⟨⟨"document", "readme"⟩, "parent", .direct "folder" "shared"⟩,
   ⟨⟨"document", "readme"⟩, "parent", .direct "user" "bob"⟩,
   ⟨⟨"folder", "shared"⟩, "viewer", .direct "user" "alice"⟩]

/-- The folder grants before the user is met, or the user fails before the folder is. -/
theorem answer_depends_on_row_order :
    SameRows (listReader attachedTuples) (listReader attachedTuples.reverse) ∧
    Fallible.eval (listReader attachedTuples) (CheckEngine.check ⟨attachedSchema, {}⟩
      ⟨"document", "readme", "view", "user", "alice", none⟩) = .ok ⟨true⟩ ∧
    Fallible.eval (listReader attachedTuples.reverse)
      (CheckEngine.check ⟨attachedSchema, {}⟩
        ⟨"document", "readme", "view", "user", "alice", none⟩) =
      .error (.permissionNotFound "user" "view") :=
  ⟨sameRows_listReader (List.reverse_perm attachedTuples).symm, by decide +kernel,
    by decide +kernel⟩

end Kraalzibar
