import Kraalzibar.Core.WellTyped
import Kraalzibar.Server.LookupSubjects
import Kraalzibar.Storage.Gc

/-!
# Checks across a garbage collection

A cycle takes tuples away, and that can both revoke access and grant it, where an excluded
operand read them.  A check that keeps to what the schema declares reads none of them.

* `KeepsToDeclared` — arrows and usersets go through declared relations;
* `CheckEngine.check_alike` — a check over two readers that differ elsewhere;
* `gc_keeps_checks` — no check is answered differently after a cycle.
-/

namespace Kraalzibar

open Foundations

/-- Arrows go through relations of their type, and the usersets among the tuples `T` through
relations of theirs. -/
structure KeepsToDeclared (schema : Schema) (T : List Tuple) : Prop where
  arrow : ∀ objectType td name pd rel perm, schema.getType objectType = some td →
    td.getPermission name = some pd → RewriteRule.Contains (.arrow rel perm) pd.rule →
      ∃ rd, td.getRelation rel = some rd
  userset : ∀ t ∈ T, ∀ rel, t.subject.subjectRelation = some rel →
    ∃ td rd, schema.getType t.subject.subjectType = some td ∧ td.getRelation rel = some rd

/-- The filter asks for a relation that the schema declares. -/
def TupleFilter.DeclaredBy (schema : Schema) (filter : TupleFilter) : Prop :=
  ∃ objectType rel td rd, filter.objectType = some objectType ∧ filter.relation = some rel ∧
    schema.getType objectType = some td ∧ td.getRelation rel = some rd

/-- At `snapshot` the readers answer alike about the relations that the schema declares, and
from tuples of `T`. -/
structure AlikeOnDeclared (schema : Schema) (T : List Tuple)
    (snapshot : Option SnapshotToken) (reader reader' : TupleReader) : Prop where
  alike : ∀ filter : TupleFilter, filter.DeclaredBy schema →
    reader ⟨filter, snapshot⟩ = reader' ⟨filter, snapshot⟩
  mem : ∀ filter : TupleFilter, filter.DeclaredBy schema →
    ∀ tuples, reader ⟨filter, snapshot⟩ = .ok tuples → ∀ t ∈ tuples, t ∈ T

/-- The arrows of a rule of this type go through its relations. -/
def RewriteRule.ArrowsDeclared (schema : Schema) (objectType : String)
    (rule : RewriteRule) : Prop :=
  ∃ td, schema.getType objectType = some td ∧
    ∀ rel perm, Contains (.arrow rel perm) rule → ∃ rd, td.getRelation rel = some rd

theorem KeepsToDeclared.arrowsDeclared {schema : Schema} {T : List Tuple}
    (hkeeps : KeepsToDeclared schema T)
    {objectType name : String} {td : TypeDefinition} {pd : PermissionDef}
    (htype : schema.getType objectType = some td) (hperm : td.getPermission name = some pd) :
    pd.rule.ArrowsDeclared schema objectType :=
  ⟨td, htype, fun rel perm => hkeeps.arrow _ _ _ _ rel perm htype hperm⟩

namespace CheckEngine

variable {engine : CheckEngine} {T : List Tuple} {snapshot : Option SnapshotToken}
  {reader reader' : TupleReader} {next : Evaluator} {ctx : CheckContext}

theorem withinDepth_alike {x : ReadM Bool}
    (h : Fallible.eval reader x = Fallible.eval reader' x) :
    Fallible.eval reader (engine.withinDepth ctx x) =
      Fallible.eval reader' (engine.withinDepth ctx x) := by
  unfold withinDepth
  split
  · rfl
  · exact h

/-- A loop over what both readers answer. -/
theorem readLoop_alike {filter : TupleFilter} {f : Tuple → ReadM Bool}
    (hread : reader ⟨filter, snapshot⟩ = reader' ⟨filter, snapshot⟩)
    (hf : ∀ tuples, reader ⟨filter, snapshot⟩ = .ok tuples →
      ∀ t ∈ tuples, Fallible.eval reader (f t) = Fallible.eval reader' (f t)) :
    Fallible.eval reader (readTuples filter snapshot >>= fun tuples => tuples.anyM f) =
      Fallible.eval reader' (readTuples filter snapshot >>= fun tuples => tuples.anyM f) := by
  rw [Fallible.eval_bind, Fallible.eval_bind, eval_readTuples, eval_readTuples, ← hread]
  cases hanswer : reader ⟨filter, snapshot⟩ with
  | error e => rfl
  | ok tuples =>
      show Fallible.eval reader (tuples.anyM f) = Fallible.eval reader' (tuples.anyM f)
      rw [Fallible.eval_anyM, Fallible.eval_anyM]
      exact anyM_congr (hf tuples hanswer)

theorem relationLoop_alike (hkeeps : KeepsToDeclared engine.schema T)
    (halike : AlikeOnDeclared engine.schema T snapshot reader reader')
    (hctx : ctx.snapshot = snapshot) {name objectType : String} {td : TypeDefinition}
    {rd : RelationDef} (htype : engine.schema.getType objectType = some td)
    (hrel : td.getRelation name = some rd) (objectId : String) :
    Fallible.eval reader (relationLoop name objectType objectId ctx) =
      Fallible.eval reader' (relationLoop name objectType objectId ctx) := by
  unfold relationLoop
  rw [hctx]
  have hdeclared : (relationFilter objectType objectId name).DeclaredBy engine.schema :=
    ⟨_, _, td, rd, rfl, rfl, htype, hrel⟩
  refine readLoop_alike (halike.alike _ hdeclared) ?_
  intro tuples htuples t ht
  unfold evaluateTuple
  rw [hctx]
  cases hsubject : t.subject.subjectRelation with
  | none => rfl
  | some rel =>
      obtain ⟨td', rd', htype', hrel'⟩ :=
        hkeeps.userset t (halike.mem _ hdeclared tuples htuples t ht) rel hsubject
      have hread := halike.alike (usersetFilter t.subject.subjectType t.subject.subjectId rel
        ctx.subjectType ctx.subjectId) ⟨_, _, td', rd', rfl, rfl, htype', hrel'⟩
      dsimp only
      rw [Fallible.eval_bind, Fallible.eval_bind, eval_readTuples, eval_readTuples, hread]
      rfl

/-- The deeper evaluations are alike. -/
abbrev NextAlike (schema : Schema) (snapshot : Option SnapshotToken)
    (reader reader' : TupleReader) (next : Evaluator) : Prop :=
  ∀ rule objectType objectId ctx, ctx.snapshot = snapshot →
    rule.ArrowsDeclared schema objectType →
    Fallible.eval reader (next rule objectType objectId ctx) =
      Fallible.eval reader' (next rule objectType objectId ctx)

theorem evaluateThis_alike (hkeeps : KeepsToDeclared engine.schema T)
    (halike : AlikeOnDeclared engine.schema T snapshot reader reader')
    (hnext : NextAlike engine.schema snapshot reader reader' next)
    (hctx : ctx.snapshot = snapshot) (name objectType objectId : String) :
    Fallible.eval reader (engine.evaluateThis next name objectType objectId ctx) =
      Fallible.eval reader' (engine.evaluateThis next name objectType objectId ctx) := by
  unfold evaluateThis
  split
  · rfl
  · next td htype =>
      split
      · next pd hperm => exact hnext _ _ _ _ hctx (hkeeps.arrowsDeclared htype hperm)
      · split
        · next rd hrel => exact relationLoop_alike hkeeps halike hctx htype hrel objectId
        · rfl

theorem evaluateArrow_alike (hkeeps : KeepsToDeclared engine.schema T)
    (halike : AlikeOnDeclared engine.schema T snapshot reader reader')
    (hnext : NextAlike engine.schema snapshot reader reader' next)
    (hctx : ctx.snapshot = snapshot) {rel objectType : String} {td : TypeDefinition}
    {rd : RelationDef} (htype : engine.schema.getType objectType = some td)
    (hrel : td.getRelation rel = some rd) (perm objectId : String) :
    Fallible.eval reader (engine.evaluateArrow next rel perm objectType objectId ctx) =
      Fallible.eval reader' (engine.evaluateArrow next rel perm objectType objectId ctx) := by
  unfold evaluateArrow
  rw [hctx]
  refine readLoop_alike (halike.alike _ ⟨_, _, td, rd, rfl, rfl, htype, hrel⟩) ?_
  intro tuples _ t _
  unfold evaluateTarget
  dsimp only
  split
  · rfl
  · split
    · rfl
    · next targetType htarget =>
        split
        · rfl
        · next pd hperm => exact hnext _ _ _ _ hctx (hkeeps.arrowsDeclared htarget hperm)

/-- **One rule.** -/
theorem ruleBody_alike (hkeeps : KeepsToDeclared engine.schema T)
    (halike : AlikeOnDeclared engine.schema T snapshot reader reader')
    (hnext : NextAlike engine.schema snapshot reader reader' next)
    (hctx : ctx.snapshot = snapshot) (objectType objectId : String) (rule : RewriteRule)
    (hrule : rule.ArrowsDeclared engine.schema objectType) :
    Fallible.eval reader (engine.ruleBody next objectType objectId ctx rule) =
      Fallible.eval reader' (engine.ruleBody next objectType objectId ctx rule) := by
  obtain ⟨td, htype, harrows⟩ := hrule
  induction rule with
  | this name =>
      exact withinDepth_alike (evaluateThis_alike hkeeps halike hnext hctx _ _ _)
  | union children ih =>
      refine withinDepth_alike ?_
      rw [unionLoop_eq, Fallible.eval_anyM, Fallible.eval_anyM]
      exact anyM_congr fun c hc => ih c hc fun rel perm h => harrows rel perm (.union hc h)
  | intersection children ih =>
      refine withinDepth_alike ?_
      rw [intersectionLoop_eq, Fallible.eval_allM, Fallible.eval_allM]
      exact allM_congr fun c hc =>
        ih c hc fun rel perm h => harrows rel perm (.intersection hc h)
  | exclusion base excluded ihBase ihExcluded =>
      refine withinDepth_alike ?_
      rw [Fallible.eval_andNotM, Fallible.eval_andNotM,
        ihBase fun rel perm h => harrows rel perm (.base h),
        ihExcluded fun rel perm h => harrows rel perm (.excluded h)]
  | arrow rel perm =>
      obtain ⟨rd, hrel⟩ := harrows rel perm .self
      exact withinDepth_alike (evaluateArrow_alike hkeeps halike hnext hctx htype hrel _ _)

theorem evaluateWithin_alike (hkeeps : KeepsToDeclared engine.schema T)
    (halike : AlikeOnDeclared engine.schema T snapshot reader reader') (remaining : ℕ) :
    NextAlike engine.schema snapshot reader reader' (engine.evaluateWithin remaining) := by
  induction remaining with
  | zero => exact fun _ _ _ _ _ _ => rfl
  | succ n ih =>
      intro rule objectType objectId ctx hctx hrule
      exact ruleBody_alike hkeeps halike ih hctx objectType objectId rule hrule

/-- **A check that keeps to the declared relations** is answered alike. -/
theorem check_alike {request : CheckRequest} (hkeeps : KeepsToDeclared engine.schema T)
    (halike : AlikeOnDeclared engine.schema T request.snapshot reader reader') :
    Fallible.eval reader (engine.check request) =
      Fallible.eval reader' (engine.check request) := by
  cases htype : engine.schema.getType request.objectType with
  | none =>
      simp only [check, htype]
      rfl
  | some td =>
      cases hperm : td.getPermission request.permission with
      | none =>
          simp only [check, htype, hperm]
          rfl
      | some pd =>
          rw [eval_check htype hperm, eval_check htype hperm]
          have hrule := evaluateWithin_alike hkeeps halike (engine.config.maxDepth + 1)
            pd.rule request.objectType request.objectId request.context rfl
            (hkeeps.arrowsDeclared htype hperm)
          exact congrArg (CheckResult.mk <$> ·) hrule

end CheckEngine

/-! ## One cycle -/

/-- A tuple that a filter for a declared relation asks for is no orphan. -/
theorem TupleFilter.DeclaredBy.keeps {schema : Schema} {filter : TupleFilter}
    (h : filter.DeclaredBy schema) {t : Tuple} (hmatches : filter.matches t = true) :
    t.DeclaredBy schema := by
  obtain ⟨objectType, rel, td, rd, hobject, hrelation, htype, hrel⟩ := h
  obtain ⟨htypes, -, hrels, -⟩ := (TupleFilter.matches_iff filter t).mp hmatches
  obtain rfl : objectType = t.object.objectType := htypes _ hobject
  obtain rfl : rel = t.relation := hrels _ hrelation
  have hmem := List.mem_of_find?_eq_some hrel
  have hname := List.find?_some hrel
  exact ⟨td, htype, rd, hmem, by simpa using hname⟩

namespace InMemoryStore

/-- The reader of a store that answers from the current state. -/
theorem over_current (state : InnerState) (filter : TupleFilter) :
    StoreTupleReader.over (store.query state) ⟨filter, none⟩ =
      .ok ((state.visible state.currentTx).filter fun t => filter.matches t) := by
  have hread : store.query state (.read filter none none) =
      .ok ((state.visible state.currentTx).filter fun t => filter.matches t) := by
    show read state filter none none = _
    rw [read_eq]
    rfl
  rw [StoreTupleReader.over, hread]
  rfl

/-- A cycle leaves the tuples that are declared. -/
theorem visible_after_gc {state : InnerState} {calls : List WriteCall}
    (h : Recorded state calls) (hcount : calls.length + 1 < ACTIVE_TX_ID) (schema : Schema) :
    (runGcCycle store schema state).2.visible (runGcCycle store schema state).2.currentTx =
      (state.visible state.currentTx).filter fun t => decide (t.DeclaredBy schema) := by
  obtain ⟨calls', hle, hafter⟩ := h.runGcCycle hcount schema
  have htx : state.currentTx + 1 ≠ ACTIVE_TX_ID := by
    have hle := length_successful_le calls
    rw [h.currentTx]
    omega
  rw [← hafter.active_eq (by omega), active_runGcCycle, h.active_eq (by omega)]
  refine List.filter_congr fun t ht => ?_
  rw [Bool.eq_iff_iff]
  simp [orphans, ht, htx, isOrphan_eq_decide]

end InMemoryStore

open InMemoryStore in
/-- **A cycle keeps the answers of checks.**  Of the current state of a store that any writes
have left, a check is answered the same before and after a cycle, if the arrows of the schema
and the usersets among the declared tuples go through declared relations. -/
theorem gc_keeps_checks (schema : Schema) (config : EngineConfig) (calls : List WriteCall)
    (hcount : calls.length + 1 < 2 ^ 64 - 1)
    (hkeeps : KeepsToDeclared schema
      ((store.afterWrites new calls).active.filter fun t => decide (t.DeclaredBy schema)))
    (request : CheckRequest) (hcurrent : request.snapshot = none) :
    Fallible.eval (StoreTupleReader.over
        (store.query (runGcCycle store schema (store.afterWrites new calls)).2))
        (CheckEngine.check ⟨schema, config⟩ request) =
      Fallible.eval (StoreTupleReader.over (store.query (store.afterWrites new calls)))
        (CheckEngine.check ⟨schema, config⟩ request) := by
  have hcount : calls.length + 1 < ACTIVE_TX_ID := hcount
  have hrec : Recorded (store.afterWrites new calls) calls := recorded_afterWrites (by omega)
  generalize store.afterWrites new calls = state at hrec hkeeps
  rw [hrec.active_eq (by omega)] at hkeeps
  refine @CheckEngine.check_alike ⟨schema, config⟩ _ _ _ request hkeeps ?_
  rw [hcurrent]
  constructor
  · intro filter hdeclared
    rw [over_current, over_current, visible_after_gc hrec hcount, List.filter_filter]
    refine congrArg Except.ok (List.filter_congr fun t _ => ?_)
    rw [Bool.eq_iff_iff, Bool.and_eq_true, decide_eq_true_eq]
    exact ⟨fun h => h.1, fun h => ⟨h, hdeclared.keeps h⟩⟩
  · intro filter _ tuples htuples t ht
    rw [over_current, visible_after_gc hrec hcount] at htuples
    obtain rfl := Except.ok.inj htuples
    exact (List.mem_filter.mp ht).1

/-! ### A folder that went -/

def teamDocuments : Schema where
  types :=
    [{ name := "user", relations := [], permissions := [] },
     { name := "group", relations := [⟨"member", [⟨"user", none⟩]⟩], permissions := [] },
     { name := "doc", relations := [⟨"viewer", [⟨"group", some "member"⟩]⟩]
       permissions := [⟨"view", .this "viewer"⟩] }]

/-- A document is shared with a group; the folder is of a type that is gone. -/
def sharedWithGroup : List WriteCall :=
  [⟨[⟨⟨"doc", "readme"⟩, "viewer", .userset "group" "eng" "member"⟩,
    ⟨⟨"group", "eng"⟩, "member", .direct "user" "alice"⟩,
    ⟨⟨"folder", "root"⟩, "viewer", .direct "user" "alice"⟩], []⟩]

def aliceViewsReadme : CheckRequest :=
  { objectType := "doc", objectId := "readme", permission := "view", subjectType := "user",
    subjectId := "alice", snapshot := none }

theorem teamDocuments_keeps : KeepsToDeclared teamDocuments
    ((InMemoryStore.store.afterWrites InMemoryStore.new sharedWithGroup).active.filter
      fun t => decide (t.DeclaredBy teamDocuments)) where
  arrow objectType td name pd rel perm htype hperm harrow := by
    have hrules : ∀ td ∈ teamDocuments.types, ∀ pd ∈ td.permissions,
        pd.rule = .this "viewer" := by decide
    have hrule := hrules td (List.mem_of_find?_eq_some htype) pd
      (List.mem_of_find?_eq_some hperm)
    rw [hrule] at harrow
    cases harrow
  userset t ht rel hrel := by
    have hgroups : ∀ t ∈ (InMemoryStore.store.afterWrites InMemoryStore.new
        sharedWithGroup).active, ∀ rel ∈ t.subject.subjectRelation,
          t.subject.subjectType = "group" ∧ rel = "member" := by decide
    obtain ⟨htype, rfl⟩ := hgroups t (List.mem_of_mem_filter ht) rel hrel
    rw [htype]
    exact ⟨_, _, rfl, rfl⟩

theorem gc_keeps_checks_group :
    Fallible.eval (StoreTupleReader.over (InMemoryStore.store.query
        (runGcCycle InMemoryStore.store teamDocuments
          (InMemoryStore.store.afterWrites InMemoryStore.new sharedWithGroup)).2))
        (CheckEngine.check ⟨teamDocuments, {}⟩ aliceViewsReadme) = .ok ⟨true⟩ :=
  (gc_keeps_checks teamDocuments {} sharedWithGroup (by decide) teamDocuments_keeps
    aliceViewsReadme rfl).trans rfl

end Kraalzibar
