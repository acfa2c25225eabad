import Kraalzibar.Core.CheckCorrect
import Kraalzibar.Core.Expand

/-!
# Well-typed schemas do not go wrong

In a well-typed schema every name a rule uses means something where the rule is
evaluated.  For a `this` that is the type of the object at hand.  For an arrow it
is the type of a stored subject, so the tuples have to conform: then the subject's
type is one of those listed for the relation, and the schema was checked for it.

* `RewriteRule.Typed`, `Schema.WellTyped`, `Tuple.Conforms` — the conditions;
* `ruleBody_failsOnly` — a rule fails only where a part of it does;
* `evaluation_progress` — neither engine meets an unknown name: it answers, or
  the depth limit stops it.
-/

namespace Kraalzibar

open Foundations

/-- `part` occurs in the rule. -/
inductive RewriteRule.Contains (part : RewriteRule) : RewriteRule → Prop
  | self : Contains part part
  | union {children : List RewriteRule} {c : RewriteRule} (hc : c ∈ children)
      (h : Contains part c) : Contains part (.union children)
  | intersection {children : List RewriteRule} {c : RewriteRule} (hc : c ∈ children)
      (h : Contains part c) : Contains part (.intersection children)
  | base {base excluded : RewriteRule} (h : Contains part base) :
      Contains part (.exclusion base excluded)
  | excluded {base excluded : RewriteRule} (h : Contains part excluded) :
      Contains part (.exclusion base excluded)

/-- Every name in a rule of the type `td` means something: a `this` names a
relation or a permission of `td`, and every subject type listed for the relation
of an arrow is defined and has the arrow's permission. -/
inductive RewriteRule.Typed (schema : Schema) (td : TypeDefinition) : RewriteRule → Prop
  | relation {name : String} {rd : RelationDef} (h : td.getRelation name = some rd) :
      Typed schema td (.this name)
  | permission {name : String} {pd : PermissionDef}
      (h : td.getPermission name = some pd) : Typed schema td (.this name)
  | union {children : List RewriteRule} (h : ∀ c ∈ children, Typed schema td c) :
      Typed schema td (.union children)
  | intersection {children : List RewriteRule} (h : ∀ c ∈ children, Typed schema td c) :
      Typed schema td (.intersection children)
  | exclusion {base excluded : RewriteRule} (hbase : Typed schema td base)
      (hexcluded : Typed schema td excluded) : Typed schema td (.exclusion base excluded)
  | arrow {rel perm : String}
      (h : ∀ rd, td.getRelation rel = some rd → ∀ st ∈ rd.subjectTypes,
        ∃ target pd, schema.getType st.typeName = some target ∧
          target.getPermission perm = some pd) : Typed schema td (.arrow rel perm)

/-- The rule of every permission of every type is typed. -/
def Schema.WellTyped (schema : Schema) : Prop :=
  ∀ typeName td, schema.getType typeName = some td →
    ∀ name pd, td.getPermission name = some pd → pd.rule.Typed schema td

/-- The object's type declares the relation, and lists the subject's type for it. -/
def Tuple.Conforms (schema : Schema) (t : Tuple) : Prop :=
  ∃ td rd, schema.getType t.object.objectType = some td ∧
    td.getRelation t.relation = some rd ∧
    ∃ st ∈ rd.subjectTypes, st.typeName = t.subject.subjectType

theorem RewriteRule.Contains.typed {schema : Schema} {td : TypeDefinition}
    {part rule : RewriteRule} (hpart : Contains part rule) (h : rule.Typed schema td) :
    part.Typed schema td := by
  induction hpart with
  | self => exact h
  | union hc _ ih =>
      cases h with
      | union h => exact ih (h _ hc)
  | intersection hc _ ih =>
      cases h with
      | intersection h => exact ih (h _ hc)
  | base _ ih =>
      cases h with
      | exclusion hbase _ => exact ih hbase
  | excluded _ ih =>
      cases h with
      | exclusion _ hexcluded => exact ih hexcluded

/-- A typed arrow from a conforming tuple has a permission to evaluate. -/
theorem RewriteRule.Typed.target {schema : Schema} {td : TypeDefinition}
    {rel perm objectType : String} (h : Typed schema td (.arrow rel perm))
    (htype : schema.getType objectType = some td) {t : Tuple} (ht : t.Conforms schema)
    (hobject : t.object.objectType = objectType) (hrelation : t.relation = rel) :
    ∃ target pd, schema.getType t.subject.subjectType = some target ∧
      target.getPermission perm = some pd := by
  obtain ⟨td', rd, htype', hrel, st, hst, hsubject⟩ := ht
  rw [hobject, htype] at htype'
  obtain rfl := Option.some.inj htype'
  cases h with
  | arrow h =>
      rw [hrelation] at hrel
      rw [← hsubject]
      exact h rd hrel st hst

/-- A reader that serves `T` does not fail. -/
theorem Serves.failsOnly {reader : TupleReader} {snapshot : Option SnapshotToken}
    {T : List Tuple} {E : CheckError → Prop} (h : Serves reader snapshot T)
    (filter : TupleFilter) :
    FailsOnly E (Fallible.eval reader (readTuples filter snapshot)) := by
  obtain ⟨tuples, hread, -⟩ := h filter
  rw [eval_readTuples, hread]
  exact .ok tuples

section

variable {T : List Tuple} {reader : TupleReader} {snapshot : Option SnapshotToken}
variable {E : CheckError → Prop}

namespace CheckEngine

variable {engine : CheckEngine}

/-- Wherever `next` evaluates a typed rule, only the depth limit can stop it. -/
def NextProgresses (schema : Schema) (reader : TupleReader)
    (snapshot : Option SnapshotToken) (next : Evaluator) : Prop :=
  ∀ {rule objectType objectId ctx td}, schema.getType objectType = some td →
    rule.Typed schema td → ctx.snapshot = snapshot →
    FailsOnly CheckError.IsDepth (Fallible.eval reader (next rule objectType objectId ctx))

/-- A relation's loop does not fail. -/
theorem relationLoop_failsOnly (hreader : Serves reader snapshot T) {ctx : CheckContext}
    (hctx : ctx.snapshot = snapshot) (name objectType objectId : String) :
    FailsOnly E (Fallible.eval reader (relationLoop name objectType objectId ctx)) := by
  rw [relationLoop, hctx, Fallible.eval_bind]
  refine (hreader.failsOnly _).bind fun tuples _ => ?_
  rw [Fallible.eval_anyM]
  refine FailsOnly.anyM fun t _ => ?_
  unfold evaluateTuple
  rw [hctx]
  split
  · exact .ok _
  · rw [Fallible.eval_bind]
    exact (hreader.failsOnly _).bind fun members _ => .ok _

theorem withinDepth_failsOnly {ctx : CheckContext} {x : ReadM Bool}
    (hdepth : ctx.depth > engine.config.maxDepth → E (.maxDepthExceeded ctx.depth))
    (hx : FailsOnly E (x.eval reader)) :
    FailsOnly E (Fallible.eval reader (engine.withinDepth ctx x)) := by
  unfold withinDepth
  split
  · rename_i hgt
    exact .error (hdepth hgt)
  · exact hx

/-- **One rule.**  The body of a rule fails where the depth limit does, or a name or an
arrow's target in it. -/
theorem ruleBody_failsOnly (hreader : Serves reader snapshot T) {next : Evaluator}
    {objectType objectId : String} {ctx : CheckContext} (hctx : ctx.snapshot = snapshot)
    (hdepth : ctx.depth > engine.config.maxDepth → E (.maxDepthExceeded ctx.depth))
    {rule : RewriteRule}
    (hthis : ∀ name, RewriteRule.Contains (.this name) rule →
      FailsOnly E (Fallible.eval reader
        (engine.evaluateThis next name objectType objectId ctx)))
    (htarget : ∀ rel perm t, RewriteRule.Contains (.arrow rel perm) rule →
      t ∈ T → t.object = ⟨objectType, objectId⟩ → t.relation = rel →
      FailsOnly E (Fallible.eval reader (engine.evaluateTarget next perm ctx t))) :
    FailsOnly E
      (Fallible.eval reader (engine.ruleBody next objectType objectId ctx rule)) := by
  induction rule with
  | this name => exact withinDepth_failsOnly hdepth (hthis name .self)
  | union children ih =>
      refine withinDepth_failsOnly hdepth ?_
      rw [unionLoop_eq, Fallible.eval_anyM]
      exact .anyM fun c hc => ih c hc (fun name h => hthis name (.union hc h))
        (fun rel perm t h => htarget rel perm t (.union hc h))
  | intersection children ih =>
      refine withinDepth_failsOnly hdepth ?_
      rw [intersectionLoop_eq, Fallible.eval_allM]
      exact .allM fun c hc => ih c hc (fun name h => hthis name (.intersection hc h))
        (fun rel perm t h => htarget rel perm t (.intersection hc h))
  | exclusion base excluded ihBase ihExcluded =>
      refine withinDepth_failsOnly hdepth ?_
      rw [Fallible.eval_andNotM]
      exact .andNotM
        (ihBase (fun name h => hthis name (.base h))
          (fun rel perm t h => htarget rel perm t (.base h)))
        (ihExcluded (fun name h => hthis name (.excluded h))
          (fun rel perm t h => htarget rel perm t (.excluded h)))
  | arrow rel perm =>
      refine withinDepth_failsOnly hdepth ?_
      obtain ⟨tuples, hread, hmem⟩ := hreader.relation objectType objectId rel
      simp only [evaluateArrow, Fallible.eval_bind, eval_readTuples, hctx, hread, ok_bind,
        Fallible.eval_anyM]
      refine FailsOnly.anyM fun t ht => ?_
      obtain ⟨hstored, hobject, hrelation⟩ := (hmem t).mp ht
      exact htarget rel perm t .self hstored hobject hrelation

/-- **One rule.**  If the deeper evaluations progress, so does the body of a typed
rule. -/
theorem ruleBody_progress (hschema : engine.schema.WellTyped)
    (hT : ∀ t ∈ T, t.Conforms engine.schema) (hreader : Serves reader snapshot T)
    {next : Evaluator} (hnext : NextProgresses engine.schema reader snapshot next)
    {objectType objectId : String} {ctx : CheckContext} (hctx : ctx.snapshot = snapshot)
    {td : TypeDefinition} (htype : engine.schema.getType objectType = some td)
    {rule : RewriteRule} (hrule : rule.Typed engine.schema td) :
    FailsOnly CheckError.IsDepth
      (Fallible.eval reader (engine.ruleBody next objectType objectId ctx rule)) := by
  have hpermission : ∀ {name pd}, td.getPermission name = some pd →
      FailsOnly CheckError.IsDepth (Fallible.eval reader
        (engine.evaluateThis next name objectType objectId ctx)) := by
    intro name pd hperm
    simp only [evaluateThis, htype, hperm]
    exact hnext htype (hschema _ _ htype _ _ hperm) hctx
  refine ruleBody_failsOnly hreader hctx (fun _ => ⟨_, rfl⟩) ?_ ?_
  · intro name hcontains
    cases hcontains.typed hrule with
    | relation hrel =>
        cases hperm : td.getPermission name with
        | some pd => exact hpermission hperm
        | none =>
            simp only [evaluateThis, htype, hperm, hrel]
            exact relationLoop_failsOnly hreader hctx name objectType objectId
    | permission hperm => exact hpermission hperm
  · intro rel perm t hcontains hstored hobject hrelation
    obtain ⟨target, pd, htarget, hperm⟩ :=
      (hcontains.typed hrule).target htype (hT t hstored) (by rw [hobject]) hrelation
    unfold evaluateTarget
    by_cases hvisited : (t.subject.subjectType, t.subject.subjectId, perm) ∈ ctx.visited
    · simp only [hvisited, if_true]
      exact .ok false
    · simp only [hvisited, if_false, htarget, hperm]
      exact hnext htarget (hschema _ _ htarget _ _ hperm) hctx

theorem evaluateWithin_progress (hschema : engine.schema.WellTyped)
    (hT : ∀ t ∈ T, t.Conforms engine.schema) (hreader : Serves reader snapshot T)
    (remaining : Nat) :
    NextProgresses engine.schema reader snapshot (engine.evaluateWithin remaining) := by
  induction remaining with
  | zero =>
      intro rule objectType objectId ctx td _ _ _
      exact .error ⟨_, rfl⟩
  | succ n ih =>
      intro rule objectType objectId ctx td htype hrule hctx
      exact ruleBody_progress hschema hT hreader ih hctx htype hrule

end CheckEngine

namespace ExpandEngine

variable {engine : ExpandEngine}

/-- Wherever `next` expands a typed rule, only the depth limit can stop it. -/
def NextProgresses (schema : Schema) (reader : TupleReader)
    (snapshot : Option SnapshotToken) (next : Expander) : Prop :=
  ∀ {rule objectType objectId ctx td}, schema.getType objectType = some td →
    rule.Typed schema td → ctx.snapshot = snapshot →
    FailsOnly CheckError.IsDepth (Fallible.eval reader (next rule objectType objectId ctx))

/-- Listing the subjects of a relation does not fail. -/
theorem expandRelation_failsOnly (hreader : Serves reader snapshot T) {ctx : ExpandContext}
    (hctx : ctx.snapshot = snapshot) (name objectType objectId : String) :
    FailsOnly E (Fallible.eval reader (expandRelation name objectType objectId ctx)) := by
  rw [expandRelation, hctx, Fallible.eval_bind]
  refine (hreader.failsOnly _).bind fun tuples _ => ?_
  rw [Fallible.eval_bind, Fallible.eval_mapM]
  refine FailsOnly.bind (.mapM fun t _ => ?_) fun leaves _ => .ok _
  unfold expandTuple
  rw [hctx]
  split
  · rw [Fallible.eval_bind]
    exact (hreader.failsOnly _).bind fun members _ => .ok _
  · exact .ok _

theorem withinDepth_failsOnly {ctx : ExpandContext} {x : ReadM ExpandTree}
    (hdepth : ctx.depth > engine.config.maxDepth → E (.maxDepthExceeded ctx.depth))
    (hx : FailsOnly E (x.eval reader)) :
    FailsOnly E (Fallible.eval reader (engine.withinDepth ctx x)) := by
  unfold withinDepth
  split
  · rename_i hgt
    exact .error (hdepth hgt)
  · exact hx

/-- **One rule.**  The body of a rule fails where the depth limit does, or a name or an
arrow's target in it. -/
theorem ruleBody_failsOnly (hreader : Serves reader snapshot T) {next : Expander}
    {objectType objectId : String} {ctx : ExpandContext} (hctx : ctx.snapshot = snapshot)
    (hdepth : ctx.depth > engine.config.maxDepth → E (.maxDepthExceeded ctx.depth))
    {rule : RewriteRule}
    (hthis : ∀ name, RewriteRule.Contains (.this name) rule →
      FailsOnly E (Fallible.eval reader
        (engine.expandThis next name objectType objectId ctx)))
    (htarget : ∀ rel perm t, RewriteRule.Contains (.arrow rel perm) rule →
      t ∈ T → t.object = ⟨objectType, objectId⟩ → t.relation = rel →
      FailsOnly E (Fallible.eval reader (engine.expandTarget next perm ctx t))) :
    FailsOnly E
      (Fallible.eval reader (engine.ruleBody next objectType objectId ctx rule)) := by
  induction rule with
  | this name => exact withinDepth_failsOnly hdepth (hthis name .self)
  | union children ih =>
      refine withinDepth_failsOnly hdepth ?_
      rw [childLoop_eq, Fallible.eval_bind, Fallible.eval_mapM]
      refine FailsOnly.bind (.mapM fun c hc => ?_) fun trees _ => .ok _
      exact ih c hc (fun name h => hthis name (.union hc h))
        (fun rel perm t h => htarget rel perm t (.union hc h))
  | intersection children ih =>
      refine withinDepth_failsOnly hdepth ?_
      rw [childLoop_eq, Fallible.eval_bind, Fallible.eval_mapM]
      refine FailsOnly.bind (.mapM fun c hc => ?_) fun trees _ => .ok _
      exact ih c hc (fun name h => hthis name (.intersection hc h))
        (fun rel perm t h => htarget rel perm t (.intersection hc h))
  | exclusion base excluded ihBase ihExcluded =>
      have hbase := ihBase (fun name h => hthis name (.base h))
        (fun rel perm t h => htarget rel perm t (.base h))
      have hexcluded := ihExcluded (fun name h => hthis name (.excluded h))
        (fun rel perm t h => htarget rel perm t (.excluded h))
      refine withinDepth_failsOnly hdepth ?_
      simp only [Fallible.eval_bind]
      exact hbase.bind fun baseTree _ => hexcluded.bind fun excludedTree _ => .ok _
  | arrow rel perm =>
      refine withinDepth_failsOnly hdepth ?_
      obtain ⟨tuples, hread, hmem⟩ := hreader.relation objectType objectId rel
      simp only [expandArrow, Fallible.eval_bind, eval_readTuples, hctx, hread, ok_bind,
        Fallible.eval_mapM]
      refine FailsOnly.bind (.mapM fun t ht => ?_) fun children _ => .ok _
      obtain ⟨hstored, hobject, hrelation⟩ := (hmem t).mp ht
      exact htarget rel perm t .self hstored hobject hrelation

/-- **One rule.**  If the deeper expansions progress, so does the body of a typed
rule. -/
theorem ruleBody_progress (hschema : engine.schema.WellTyped)
    (hT : ∀ t ∈ T, t.Conforms engine.schema) (hreader : Serves reader snapshot T)
    {next : Expander} (hnext : NextProgresses engine.schema reader snapshot next)
    {objectType objectId : String} {ctx : ExpandContext} (hctx : ctx.snapshot = snapshot)
    {td : TypeDefinition} (htype : engine.schema.getType objectType = some td)
    {rule : RewriteRule} (hrule : rule.Typed engine.schema td) :
    FailsOnly CheckError.IsDepth
      (Fallible.eval reader (engine.ruleBody next objectType objectId ctx rule)) := by
  have hpermission : ∀ {name pd}, td.getPermission name = some pd →
      FailsOnly CheckError.IsDepth (Fallible.eval reader
        (engine.expandThis next name objectType objectId ctx)) := by
    intro name pd hperm
    simp only [expandThis, htype, hperm]
    exact hnext htype (hschema _ _ htype _ _ hperm) hctx
  refine ruleBody_failsOnly hreader hctx (fun _ => ⟨_, rfl⟩) ?_ ?_
  · intro name hcontains
    cases hcontains.typed hrule with
    | relation hrel =>
        cases hperm : td.getPermission name with
        | some pd => exact hpermission hperm
        | none =>
            simp only [expandThis, htype, hperm, hrel]
            exact expandRelation_failsOnly hreader hctx name objectType objectId
    | permission hperm => exact hpermission hperm
  · intro rel perm t hcontains hstored hobject hrelation
    obtain ⟨target, pd, htarget, hperm⟩ :=
      (hcontains.typed hrule).target htype (hT t hstored) (by rw [hobject]) hrelation
    unfold expandTarget
    by_cases hvisited : (t.subject.subjectType, t.subject.subjectId, perm) ∈ ctx.visited
    · simp only [hvisited, if_true]
      exact .ok none
    · simp only [hvisited, if_false, htarget, hperm, Fallible.eval_bind]
      refine FailsOnly.bind ?_ fun tree _ => .ok _
      exact hnext htarget (hschema _ _ htarget _ _ hperm) hctx

theorem expandWithin_progress (hschema : engine.schema.WellTyped)
    (hT : ∀ t ∈ T, t.Conforms engine.schema) (hreader : Serves reader snapshot T)
    (remaining : Nat) :
    NextProgresses engine.schema reader snapshot (engine.expandWithin remaining) := by
  induction remaining with
  | zero =>
      intro rule objectType objectId ctx td _ _ _
      exact .error ⟨_, rfl⟩
  | succ n ih =>
      intro rule objectType objectId ctx td htype hrule hctx
      exact ruleBody_progress hschema hT hreader ih hctx htype hrule

end ExpandEngine

end

/-- **Well-typed schemas do not go wrong.**  Over a well-typed schema and a reader
that serves conforming tuples, the check and the expansion of a declared
permission answer, or stop at the depth limit. -/
theorem evaluation_progress (schema : Schema) (config : EngineConfig) (T : List Tuple)
    (reader : TupleReader) (snapshot : Option SnapshotToken) (hschema : schema.WellTyped)
    (hT : ∀ t ∈ T, t.Conforms schema) (hreader : Serves reader snapshot T)
    (objectType objectId permission : String)
    (hdeclared : ∃ td pd, schema.getType objectType = some td ∧
      td.getPermission permission = some pd) :
    (∀ subjectType subjectId,
      (∃ result, Fallible.eval reader (CheckEngine.check ⟨schema, config⟩
        ⟨objectType, objectId, permission, subjectType, subjectId, snapshot⟩) =
          .ok result) ∨
      ∃ depth, Fallible.eval reader (CheckEngine.check ⟨schema, config⟩
        ⟨objectType, objectId, permission, subjectType, subjectId, snapshot⟩) =
          .error (.maxDepthExceeded depth)) ∧
    ((∃ tree, Fallible.eval reader (ExpandEngine.expand ⟨schema, config⟩
        ⟨objectType, objectId, permission, snapshot⟩) = .ok tree) ∨
      ∃ depth, Fallible.eval reader (ExpandEngine.expand ⟨schema, config⟩
        ⟨objectType, objectId, permission, snapshot⟩) =
          .error (.maxDepthExceeded depth)) := by
  obtain ⟨td, pd, htype, hperm⟩ := hdeclared
  have hrule := hschema _ _ htype _ _ hperm
  constructor
  · intro subjectType subjectId
    have hcheck : FailsOnly CheckError.IsDepth (Fallible.eval reader
        (CheckEngine.check ⟨schema, config⟩
          ⟨objectType, objectId, permission, subjectType, subjectId, snapshot⟩)) := by
      simp only [CheckEngine.check, htype, hperm, Fallible.eval_bind]
      refine FailsOnly.bind ?_ fun allowed _ => .ok _
      exact @CheckEngine.evaluateWithin_progress T reader snapshot ⟨schema, config⟩
        hschema hT hreader _ _ _ _ _ _ htype hrule rfl
    rcases hcheck.ok_or_error with h | ⟨e, h, depth, rfl⟩
    · exact Or.inl h
    · exact Or.inr ⟨depth, h⟩
  · have hexpand : FailsOnly CheckError.IsDepth (Fallible.eval reader
        (ExpandEngine.expand ⟨schema, config⟩
          ⟨objectType, objectId, permission, snapshot⟩)) := by
      rw [ExpandEngine.expand_eq htype hperm]
      exact @ExpandEngine.expandWithin_progress T reader snapshot ⟨schema, config⟩
        hschema hT hreader _ _ _ _ _ _ htype hrule rfl
    rcases hexpand.ok_or_error with h | ⟨e, h, depth, rfl⟩
    · exact Or.inl h
    · exact Or.inr ⟨depth, h⟩

private theorem folderSchema_wellTyped : folderSchema.WellTyped := by
  intro typeName td htype name pd hperm
  have htd := List.mem_of_find?_eq_some htype
  have hpd := List.mem_of_find?_eq_some hperm
  simp only [folderSchema, List.mem_cons, List.not_mem_nil, or_false] at htd
  rcases htd with rfl | rfl
  · cases hpd
  · simp only [List.mem_cons, List.not_mem_nil, or_false] at hpd
    rcases hpd with rfl | rfl
    · refine .union ?_
      intro c hc
      simp only [List.mem_cons, List.not_mem_nil, or_false] at hc
      rcases hc with rfl | rfl
      · exact .relation rfl
      · refine .arrow ?_
        intro rd hrel st hst
        obtain rfl := Option.some.inj hrel
        obtain rfl := List.mem_singleton.mp hst
        exact ⟨_, _, rfl, rfl⟩
    · exact .exclusion (.permission rfl) (.relation rfl)

private theorem folderTuples_conform : ∀ t ∈ folderTuples, t.Conforms folderSchema := by
  intro t ht
  simp only [folderTuples, List.mem_cons, List.not_mem_nil, or_false] at ht
  rcases ht with rfl | rfl | rfl | rfl <;>
    exact ⟨_, _, rfl, rfl, _, .head _, rfl⟩

/-- Bob, whom nothing stored is about, is looked for around the cycle of parents. -/
theorem evaluation_progress_cycle :
    ((∃ result, Fallible.eval (listReader folderTuples)
        (CheckEngine.check ⟨folderSchema, {}⟩
          ⟨"folder", "a", "view", "user", "bob", none⟩) = .ok result) ∨
      ∃ depth, Fallible.eval (listReader folderTuples)
        (CheckEngine.check ⟨folderSchema, {}⟩
          ⟨"folder", "a", "view", "user", "bob", none⟩) =
            .error (.maxDepthExceeded depth)) ∧
    ((∃ tree, Fallible.eval (listReader folderTuples)
        (ExpandEngine.expand ⟨folderSchema, {}⟩ ⟨"folder", "a", "view", none⟩) =
          .ok tree) ∨
      ∃ depth, Fallible.eval (listReader folderTuples)
        (ExpandEngine.expand ⟨folderSchema, {}⟩ ⟨"folder", "a", "view", none⟩) =
          .error (.maxDepthExceeded depth)) :=
  have hprogress := evaluation_progress folderSchema {} folderTuples
    (listReader folderTuples) none folderSchema_wellTyped folderTuples_conform
    (listReader_serves _ _) "folder" "a" "view" ⟨_, _, rfl, rfl⟩
  ⟨hprogress.1 "user" "bob", hprogress.2⟩

end Kraalzibar
