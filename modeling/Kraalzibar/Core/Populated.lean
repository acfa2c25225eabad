import Kraalzibar.Core.Check
import Kraalzibar.Core.Expand
import Kraalzibar.Core.Parser

/-!
# Schemas without empty intersections

An empty intersection grants everyone everything, and `parse_schema` cannot
build one.  Over a schema whose intersections all have an operand,

* `expand_populated` — every node of intersection in an expansion has an operand;
* `check_inert` — no permission holds on an object whose tuples grant nothing: the
  leaves and the arrows of its rules read the object's own tuples;
* `check_untupled` — nor on an object that no tuple is about.
-/

namespace Kraalzibar

open Foundations

/-! ## Expansions -/

/-- Every intersection in the tree has an operand. -/
inductive ExpandTree.Populated : ExpandTree → Prop
  | leaf (subject : SubjectRef) : Populated (.leaf subject)
  | this (relation : String) {subjects : List ExpandTree}
      (h : ∀ c ∈ subjects, Populated c) : Populated (.this relation subjects)
  | union {children : List ExpandTree} (h : ∀ c ∈ children, Populated c) :
      Populated (.union children)
  | intersection {children : List ExpandTree} (hne : children ≠ [])
      (h : ∀ c ∈ children, Populated c) : Populated (.intersection children)
  | exclusion {base excluded : ExpandTree} (hbase : Populated base)
      (hexcluded : Populated excluded) : Populated (.exclusion base excluded)
  | arrow (rel perm : String) {children : List ExpandTree}
      (h : ∀ c ∈ children, Populated c) : Populated (.arrow rel perm children)

namespace ExpandEngine

variable {engine : ExpandEngine} {reader : TupleReader}

/-- A stored relation expands to leaves. -/
theorem expandRelation_populated {name objectType objectId : String}
    {ctx : ExpandContext} {tree : ExpandTree}
    (h : Fallible.eval reader (expandRelation name objectType objectId ctx) = .ok tree) :
    tree.Populated := by
  obtain ⟨tuples, groups, -, hgroups, rfl⟩ := expandRelation_eq_ok.mp h
  refine .this name ?_
  intro leaf hleaf
  obtain ⟨group, hgroup, hmem⟩ := List.mem_flatten.mp hleaf
  obtain ⟨t, -, ht⟩ := exists_of_forall₂ hgroups hgroup
  rcases expandTuple_eq_ok.mp ht with ⟨-, rfl⟩ | ⟨rel, members, -, -, rfl⟩
  · rw [List.mem_singleton.mp hmem]
    exact .leaf _
  · obtain ⟨ut, -, rfl⟩ := List.mem_map.mp hmem
    exact .leaf _

/-- The deeper expansions of populated rules are populated. -/
def NextPopulated (reader : TupleReader) (next : Expander) : Prop :=
  ∀ {rule objectType objectId ctx tree}, rule.Populated →
    Fallible.eval reader (next rule objectType objectId ctx) = .ok tree → tree.Populated

theorem expandTarget_populated (hschema : engine.schema.EveryRule RewriteRule.Populated)
    {next : Expander} (hnext : NextPopulated reader next) {perm : String}
    {ctx : ExpandContext} {t : Tuple} {tree : ExpandTree}
    (h : Fallible.eval reader (engine.expandTarget next perm ctx t) = .ok (some tree)) :
    tree.Populated := by
  rcases expandTarget_of_ok h with ⟨-, hnone⟩ | ⟨-, td, pd, child, htype, hperm, hchild, hsome⟩
  · cases hnone
  · obtain rfl := Option.some.inj hsome
    exact hnext (hschema.get htype hperm) hchild

/-- **One rule.**  If the deeper expansions are populated, so is the expansion of
the body of a populated rule. -/
theorem ruleBody_populated (hschema : engine.schema.EveryRule RewriteRule.Populated)
    {next : Expander} (hnext : NextPopulated reader next) {objectType objectId : String}
    {ctx : ExpandContext} {rule : RewriteRule} {tree : ExpandTree}
    (hrule : rule.Populated)
    (h : Fallible.eval reader (engine.ruleBody next objectType objectId ctx rule) =
      .ok tree) : tree.Populated := by
  induction hrule generalizing tree with
  | this name =>
      obtain ⟨-, h⟩ := withinDepth_eq_ok.mp h
      rcases expandThis_of_ok h with ⟨td, pd, htype, hperm, h⟩ | ⟨td, rd, -, -, -, h⟩
      · exact hnext (hschema.get htype hperm) h
      · exact expandRelation_populated h
  | union _ ih =>
      obtain ⟨-, trees, htrees, rfl⟩ := union_eq_ok.mp h
      refine .union ?_
      intro child hchild
      obtain ⟨c, hc, heval⟩ := exists_of_forall₂ htrees hchild
      exact ih c hc heval
  | intersection hne _ ih =>
      obtain ⟨-, trees, htrees, rfl⟩ := intersection_eq_ok.mp h
      refine .intersection ?_ ?_
      · intro hempty
        rw [hempty, List.forall₂_nil_right_iff] at htrees
        exact hne htrees
      · intro child hchild
        obtain ⟨c, hc, heval⟩ := exists_of_forall₂ htrees hchild
        exact ih c hc heval
  | exclusion _ _ ihBase ihExcluded =>
      obtain ⟨-, baseTree, excludedTree, hbase, hexcluded, rfl⟩ := exclusion_eq_ok.mp h
      exact .exclusion (ihBase hbase) (ihExcluded hexcluded)
  | arrow rel perm =>
      obtain ⟨-, tuples, children, -, htrees, rfl⟩ := arrow_eq_ok.mp h
      refine .arrow rel perm ?_
      intro child hchild
      obtain ⟨found, hfound, rfl⟩ := List.mem_filterMap.mp hchild
      obtain ⟨t, -, heval⟩ := exists_of_forall₂ htrees hfound
      exact expandTarget_populated hschema hnext heval

theorem expandWithin_populated (hschema : engine.schema.EveryRule RewriteRule.Populated)
    (remaining : Nat) : NextPopulated reader (engine.expandWithin remaining) := by
  induction remaining with
  | zero =>
      intro rule objectType objectId ctx tree _ h
      cases h
  | succ n ih =>
      intro rule objectType objectId ctx tree hrule h
      exact ruleBody_populated hschema ih hrule h

/-- **The expansions of a schema without empty intersections have none.** -/
theorem expand_populated (hschema : engine.schema.EveryRule RewriteRule.Populated)
    {request : ExpandRequest} {tree : ExpandTree}
    (h : Fallible.eval reader (engine.expand request) = .ok tree) : tree.Populated := by
  obtain ⟨td, pd, htype, hperm, heval⟩ := declared_of_expand h
  exact expandWithin_populated hschema _ (hschema.get htype hperm) heval

end ExpandEngine

/-! ## Checks -/

namespace CheckEngine

variable {engine : CheckEngine} {reader : TupleReader} {T : List Tuple}
variable {snapshot : Option SnapshotToken} {o : ObjectRef}

/-- The tuples of `o` grant nothing: a permission hides their relation, and nothing is
known of the type of their subject. -/
def Inert (schema : Schema) (T : List Tuple) (o : ObjectRef) : Prop :=
  ∀ t ∈ T, t.object = o → schema.getType t.subject.subjectType = none ∧
    ∃ td pd, schema.getType o.objectType = some td ∧ td.getPermission t.relation = some pd

theorem Inert.of_untupled {schema : Schema} (huntupled : ∀ t ∈ T, t.object ≠ o) :
    Inert schema T o :=
  fun t ht hobject => absurd hobject (huntupled t ht)

/-- No relation that a `this` reaches has a tuple. -/
theorem relationLoop_denies (hreader : ReadsFrom reader snapshot T)
    (hinert : Inert engine.schema T o) {ctx : CheckContext} (hctx : ctx.snapshot = snapshot)
    {name : String} {td : TypeDefinition} (htype : engine.schema.getType o.objectType = some td)
    (hunshadowed : td.getPermission name = none) :
    Decides (Fallible.eval reader (relationLoop name o.objectType o.objectId ctx)) False := by
  rw [relationLoop, Fallible.eval_bind, eval_readTuples, hctx]
  cases hread : reader ⟨relationFilter o.objectType o.objectId name, snapshot⟩ with
  | error e => exact .error e
  | ok tuples =>
      have hnil : tuples = [] := by
        rw [List.eq_nil_iff_forall_not_mem]
        intro t ht
        obtain ⟨hstored, hmatch⟩ := (hreader.mem hread t).mp ht
        obtain ⟨hobject, hrelation⟩ := (relationFilter_matches ..).mp hmatch
        obtain ⟨-, td', pd, htype', hperm⟩ := hinert t hstored hobject
        rw [Option.some.inj (htype'.symm.trans htype), hrelation, hunshadowed] at hperm
        cases hperm
      rw [hnil]
      exact .ok (by simp)

/-- An arrow from a tuple of the object leads nowhere. -/
theorem evaluateArrow_denies (hreader : ReadsFrom reader snapshot T)
    (hinert : Inert engine.schema T o) {next : Evaluator} {ctx : CheckContext}
    (hctx : ctx.snapshot = snapshot) (rel perm : String) :
    Decides (Fallible.eval reader
      (engine.evaluateArrow next rel perm o.objectType o.objectId ctx)) False := by
  rw [evaluateArrow, Fallible.eval_bind, eval_readTuples, hctx]
  cases hread : reader ⟨relationFilter o.objectType o.objectId rel, snapshot⟩ with
  | error e => exact .error e
  | ok tuples =>
      rw [ok_bind, Fallible.eval_anyM]
      refine (Decides.anyM (P := fun _ => False) fun t ht => ?_).congr (by simp)
      obtain ⟨hstored, hmatch⟩ := (hreader.mem hread t).mp ht
      have hobject := ((relationFilter_matches ..).mp hmatch).1
      have hunknown := (hinert t hstored hobject).1
      rcases evaluateTarget_cases engine next perm ctx t with
        ⟨-, heq⟩ | ⟨-, td, pd, htype, -, -⟩ | ⟨-, e, -, heq⟩
      · rw [heq]
        exact .ok (by simp)
      · rw [hunknown] at htype
        cases htype
      · rw [heq]
        exact .error e

/-- **One rule.**  On an inert object, a populated rule is not answered `true` if the
rules of its permissions are not. -/
theorem ruleBody_denies (hschema : engine.schema.EveryRule RewriteRule.Populated)
    (hreader : ReadsFrom reader snapshot T) (hinert : Inert engine.schema T o)
    {next : Evaluator}
    (hnext : ∀ rule ctx, RewriteRule.Populated rule → ctx.snapshot = snapshot →
      Decides (Fallible.eval reader (next rule o.objectType o.objectId ctx)) False)
    {ctx : CheckContext} (hctx : ctx.snapshot = snapshot) {rule : RewriteRule}
    (hrule : rule.Populated) :
    Decides (Fallible.eval reader
      (engine.ruleBody next o.objectType o.objectId ctx rule)) False := by
  induction hrule with
  | this name =>
      refine withinDepth_decides ?_
      rcases evaluateThis_cases engine next name o.objectType o.objectId ctx with
        ⟨td, pd, htype, hperm, heq⟩ | ⟨td, rd, htype, hunshadowed, -, heq⟩ | ⟨e, -, heq⟩
      · rw [heq]
        exact hnext pd.rule _ (hschema.get htype hperm) hctx
      · rw [heq]
        exact relationLoop_denies hreader hinert hctx htype hunshadowed
      · rw [heq]
        exact .error e
  | union _ ih =>
      refine withinDepth_decides ?_
      rw [unionLoop_eq, Fallible.eval_anyM]
      exact (Decides.anyM ih).congr (by simp)
  | @intersection children hne _ ih =>
      refine withinDepth_decides ?_
      rw [intersectionLoop_eq, Fallible.eval_allM]
      obtain ⟨c, hc⟩ := List.exists_mem_of_ne_nil children hne
      exact (Decides.allM ih).congr (iff_of_false (fun h => h c hc) id)
  | exclusion _ _ ihBase _ =>
      refine withinDepth_decides ?_
      rw [Fallible.eval_andNotM]
      exact (Decides.andNotM ihBase (.self _)).congr (by simp)
  | arrow rel perm =>
      exact withinDepth_decides (evaluateArrow_denies hreader hinert hctx rel perm)

theorem evaluateWithin_denies (hschema : engine.schema.EveryRule RewriteRule.Populated)
    (hreader : ReadsFrom reader snapshot T) (hinert : Inert engine.schema T o)
    (remaining : Nat) (rule : RewriteRule) (ctx : CheckContext) (hrule : rule.Populated)
    (hctx : ctx.snapshot = snapshot) :
    Decides (Fallible.eval reader
      (engine.evaluateWithin remaining rule o.objectType o.objectId ctx)) False := by
  induction remaining generalizing rule ctx with
  | zero => exact .error _
  | succ n ih => exact ruleBody_denies hschema hreader hinert ih hctx hrule

/-- **No permission holds on an inert object.** -/
theorem check_inert (hschema : engine.schema.EveryRule RewriteRule.Populated)
    {request : CheckRequest} (hreader : ReadsFrom reader request.snapshot T)
    (hinert : Inert engine.schema T ⟨request.objectType, request.objectId⟩) :
    Fallible.eval reader (engine.check request) ≠ .ok ⟨true⟩ := by
  intro h
  obtain ⟨td, pd, htype, hperm, heval⟩ := declared_of_check h
  have hdenies : Decides (Fallible.eval reader (engine.evaluateRule pd.rule
      request.objectType request.objectId request.context)) False :=
    @evaluateWithin_denies engine reader T request.snapshot
      ⟨request.objectType, request.objectId⟩ hschema hreader hinert _ pd.rule
      request.context (hschema.get htype hperm) rfl
  exact (hdenies true heval).mp rfl

/-- **No permission holds on an object without tuples.** -/
theorem check_untupled (hschema : engine.schema.EveryRule RewriteRule.Populated)
    {request : CheckRequest} (hreader : ReadsFrom reader request.snapshot T)
    (huntupled : ∀ t ∈ T, t.object ≠ ⟨request.objectType, request.objectId⟩) :
    Fallible.eval reader (engine.check request) ≠ .ok ⟨true⟩ :=
  check_inert hschema hreader (.of_untupled huntupled)

end CheckEngine

end Kraalzibar
