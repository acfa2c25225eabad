import Kraalzibar.Foundations.SortedDedup
import Kraalzibar.Server.LookupSubjects

/-!
# When a lookup names each subject once

`lookup_subjects` sorts what it collected by type and id, and then removes
adjacent repetitions.  Two subjects of one type and id may still differ in their
relation, and the sort leaves those as they came: `group:eng`, `group:eng#member`,
`group:eng` is sorted, and no two neighbours in it are equal.

* `reached` — the subjects a permission reaches, in the order the rows are read:
  what the schema and the store determine, with no engine in between;
* `collectSubjects_expand` — the subjects collected from an expansion are the
  ones reached;
* `lookupSubjects_nodup_iff` — a lookup names each subject once exactly when no
  subject is reached again after another of its type and id.
-/

namespace Kraalzibar

open Foundations

/-! ## The subjects a permission reaches -/

section Reached

variable (schema : Schema) (reader : TupleReader) (snapshot : Option SnapshotToken)

/-- The subjects in the rows of a relation. -/
def rowSubjects (objectType objectId relation : String) : List SubjectRef :=
  match reader ⟨relationFilter objectType objectId relation, snapshot⟩ with
  | .ok tuples => tuples.map Tuple.subject
  | .error _ => []

/-- The subjects a relation stands for: a userset for the subjects of its rows. -/
def storedSubjects (objectType objectId relation : String) : List SubjectRef :=
  (rowSubjects reader snapshot objectType objectId relation).flatMap fun subject =>
    match subject.subjectRelation with
    | none => [subject]
    | some rel => rowSubjects reader snapshot subject.subjectType subject.subjectId rel

def permissionRule (objectType permission : String) : Option RewriteRule :=
  (schema.getType objectType).bind fun td =>
    (td.getPermission permission).map PermissionDef.rule

/-- The subjects a rule reaches on an object, past the targets already visited. -/
abbrev Reach := RewriteRule → String → String → List VisitKey → List SubjectRef

mutual

def reachRule (next : Reach) (objectType objectId : String) (visited : List VisitKey) :
    RewriteRule → List SubjectRef
  | .this name =>
      match permissionRule schema objectType name with
      | some rule => next rule objectType objectId visited
      | none => storedSubjects reader snapshot objectType objectId name
  | .union children => reachEach next objectType objectId visited children
  | .intersection children => reachEach next objectType objectId visited children
  | .exclusion base _ => reachRule next objectType objectId visited base
  | .arrow tuplesetRel computedPerm =>
      (rowSubjects reader snapshot objectType objectId tuplesetRel).flatMap fun target =>
        let key : VisitKey := (target.subjectType, target.subjectId, computedPerm)
        if key ∈ visited then []
        else match permissionRule schema target.subjectType computedPerm with
          | some rule => next rule target.subjectType target.subjectId (key :: visited)
          | none => []

def reachEach (next : Reach) (objectType objectId : String) (visited : List VisitKey) :
    List RewriteRule → List SubjectRef
  | [] => []
  | child :: children =>
      reachRule next objectType objectId visited child ++
        reachEach next objectType objectId visited children

end

def reachWithin : Nat → Reach
  | 0 => fun _ _ _ _ => []
  | levels + 1 => fun rule objectType objectId visited =>
      reachRule schema reader snapshot (reachWithin levels) objectType objectId visited rule

/-- The subjects a permission of an object reaches within a number of levels. -/
def reached (levels : Nat) (objectType objectId permission : String) : List SubjectRef :=
  match permissionRule schema objectType permission with
  | some rule => reachWithin schema reader snapshot levels rule objectType objectId []
  | none => []

variable {schema reader snapshot}

theorem reachEach_eq (next : Reach) (objectType objectId : String)
    (visited : List VisitKey) (children : List RewriteRule) :
    reachEach schema reader snapshot next objectType objectId visited children =
      children.flatMap
        (reachRule schema reader snapshot next objectType objectId visited) := by
  induction children with
  | nil => rfl
  | cons child children ih => rw [reachEach, ih, List.flatMap_cons]

theorem rowSubjects_eq {objectType objectId relation : String} {tuples : List Tuple}
    (h : reader ⟨relationFilter objectType objectId relation, snapshot⟩ = .ok tuples) :
    rowSubjects reader snapshot objectType objectId relation =
      tuples.map Tuple.subject := by
  rw [rowSubjects, h]

theorem permissionRule_eq {objectType permission : String} {td : TypeDefinition}
    (htype : schema.getType objectType = some td) :
    permissionRule schema objectType permission =
      (td.getPermission permission).map PermissionDef.rule := by
  rw [permissionRule, htype]
  rfl

end Reached

/-! ## The subjects an expansion collects -/

section Collected

variable {schema : Schema} {config : EngineConfig} {reader : TupleReader}

/-- Wherever `next` expands a rule, the subjects of type `subjectType` collected
from its tree are those that `reach` lists. -/
def Collects (reader : TupleReader) (subjectType : String)
    (next : ExpandEngine.Expander) (reach : Option SnapshotToken → Reach) : Prop :=
  ∀ rule objectType objectId ctx tree,
    Fallible.eval reader (next rule objectType objectId ctx) = .ok tree →
    AuthzService.collectSubjects subjectType tree =
      (reach ctx.snapshot rule objectType objectId ctx.visited).filter
        (fun s => s.subjectType = subjectType)

theorem collectSubjects_leaf (subjectType : String) (subject : SubjectRef) :
    AuthzService.collectSubjects subjectType (.leaf subject) =
      [subject].filter (fun s => s.subjectType = subjectType) := by
  unfold AuthzService.collectSubjects
  rw [List.filter_singleton]
  by_cases htype : subject.subjectType = subjectType
  · rw [if_pos htype, decide_eq_true htype, cond_true]
  · rw [if_neg htype, decide_eq_false htype, cond_false]

/-- The leaves of a list of tuples collect its subjects. -/
theorem collectEach_leaves (subjectType : String) (tuples : List Tuple) :
    AuthzService.collectEach subjectType
        (tuples.map (fun t => ExpandTree.leaf t.subject)) =
      (tuples.map Tuple.subject).filter (fun s => s.subjectType = subjectType) := by
  rw [collectEach_eq]
  induction tuples with
  | nil => rfl
  | cons t tuples ih =>
      rw [List.map_cons, List.flatMap_cons, ih, collectSubjects_leaf, List.map_cons,
        ← List.filter_append, List.singleton_append]

theorem collectEach_filterMap (subjectType : String)
    (children : List (Option ExpandTree)) :
    AuthzService.collectEach subjectType (children.filterMap id) =
      children.flatMap
        (fun child => AuthzService.collectEach subjectType child.toList) := by
  induction children with
  | nil => rfl
  | cons child children ih =>
      cases child with
      | none => exact ih
      | some tree =>
          show AuthzService.collectEach subjectType (tree :: children.filterMap id) = _
          rw [AuthzService.collectEach, ih, List.flatMap_cons, Option.toList_some,
            AuthzService.collectEach, AuthzService.collectEach, List.append_nil]

/-- One tuple's leaves collect the subject, or those of its userset. -/
theorem collectEach_expandTuple {subjectType : String} {ctx : ExpandContext} {t : Tuple}
    {leaves : List ExpandTree}
    (h : Fallible.eval reader (ExpandEngine.expandTuple ctx t) = .ok leaves) :
    AuthzService.collectEach subjectType leaves =
      (match t.subject.subjectRelation with
        | none => [t.subject]
        | some rel => rowSubjects reader ctx.snapshot t.subject.subjectType
            t.subject.subjectId rel).filter (fun s => s.subjectType = subjectType) := by
  rcases ExpandEngine.expandTuple_eq_ok.mp h with
    ⟨hrel, rfl⟩ | ⟨rel, members, hrel, hmembers, rfl⟩
  · rw [hrel]
    exact collectEach_leaves subjectType [t]
  · simp only [hrel, rowSubjects_eq hmembers]
    exact collectEach_leaves subjectType members

theorem collectSubjects_expandRelation {subjectType name objectType objectId : String}
    {ctx : ExpandContext} {tree : ExpandTree}
    (h : Fallible.eval reader
      (ExpandEngine.expandRelation name objectType objectId ctx) = .ok tree) :
    AuthzService.collectSubjects subjectType tree =
      (storedSubjects reader ctx.snapshot objectType objectId name).filter
        (fun s => s.subjectType = subjectType) := by
  obtain ⟨tuples, groups, hread, hgroups, rfl⟩ := ExpandEngine.expandRelation_eq_ok.mp h
  rw [AuthzService.collectSubjects, collectEach_eq, List.flatten_eq_flatMap,
    List.flatMap_assoc, storedSubjects, rowSubjects_eq hread, List.flatMap_map,
    List.filter_flatMap]
  refine flatMap_eq_of_forall₂ hgroups fun t _ leaves hleaves => ?_
  rw [id, ← collectEach_eq, collectEach_expandTuple hleaves]

/-- One arrow target collects what its permission reaches. -/
theorem collectSubjects_expandTarget {subjectType : String}
    {next : ExpandEngine.Expander} {reach : Option SnapshotToken → Reach}
    (hnext : Collects reader subjectType next reach) {perm : String}
    {ctx : ExpandContext} {t : Tuple} {child : Option ExpandTree}
    (h : Fallible.eval reader
      (ExpandEngine.expandTarget ⟨schema, config⟩ next perm ctx t) = .ok child) :
    AuthzService.collectEach subjectType child.toList =
      (let key : VisitKey := (t.subject.subjectType, t.subject.subjectId, perm)
        if key ∈ ctx.visited then []
        else match permissionRule schema t.subject.subjectType perm with
          | some rule => reach ctx.snapshot rule t.subject.subjectType
              t.subject.subjectId (key :: ctx.visited)
          | none => []).filter (fun s => s.subjectType = subjectType) := by
  rcases ExpandEngine.expandTarget_of_ok h with
    ⟨hvisited, rfl⟩ | ⟨hfresh, td, pd, tree, htype, hperm, htree, rfl⟩
  · simp only [hvisited, if_true]
    rfl
  · have hrule : permissionRule schema t.subject.subjectType perm = some pd.rule := by
      rw [permissionRule_eq htype, hperm, Option.map_some]
    simp only [hfresh, if_false, hrule]
    rw [Option.toList_some, collectEach_eq, List.flatMap_singleton]
    exact hnext _ _ _ _ _ htree

/-- **One rule.**  If the deeper expansions collect what is reached, so does the
body of a rule. -/
theorem collectSubjects_ruleBody {subjectType : String} {next : ExpandEngine.Expander}
    {reach : Option SnapshotToken → Reach} (hnext : Collects reader subjectType next reach)
    {objectType objectId : String} {ctx : ExpandContext} {rule : RewriteRule}
    {tree : ExpandTree}
    (h : Fallible.eval reader
      (ExpandEngine.ruleBody ⟨schema, config⟩ next objectType objectId ctx rule) =
        .ok tree) :
    AuthzService.collectSubjects subjectType tree =
      (reachRule schema reader ctx.snapshot (reach ctx.snapshot) objectType objectId
        ctx.visited rule).filter (fun s => s.subjectType = subjectType) := by
  have hchildren : ∀ {children : List RewriteRule} {trees : List ExpandTree},
      (∀ c ∈ children, ∀ {tree}, Fallible.eval reader
        (ExpandEngine.ruleBody ⟨schema, config⟩ next objectType objectId ctx c) =
          .ok tree →
        AuthzService.collectSubjects subjectType tree =
          (reachRule schema reader ctx.snapshot (reach ctx.snapshot) objectType objectId
            ctx.visited c).filter (fun s => s.subjectType = subjectType)) →
      List.Forall₂ (fun c child => Fallible.eval reader
        (ExpandEngine.ruleBody ⟨schema, config⟩ next objectType objectId ctx c) =
          .ok child) children trees →
      AuthzService.collectEach subjectType trees =
        (reachEach schema reader ctx.snapshot (reach ctx.snapshot) objectType objectId
          ctx.visited children).filter (fun s => s.subjectType = subjectType) := by
    intro children trees hc htrees
    rw [collectEach_eq, reachEach_eq, List.filter_flatMap]
    exact flatMap_eq_of_forall₂ htrees fun c hmem child hchild => hc c hmem hchild
  induction rule generalizing tree with
  | this name =>
      obtain ⟨-, h⟩ := ExpandEngine.withinDepth_eq_ok.mp h
      rw [reachRule]
      rcases ExpandEngine.expandThis_of_ok h with
        ⟨td, pd, htype, hperm, h⟩ | ⟨td, rd, htype, hperm, -, h⟩
      · rw [permissionRule_eq htype, hperm]
        exact hnext _ _ _ { ctx with depth := ctx.depth + 1 } _ h
      · rw [permissionRule_eq htype, hperm]
        exact collectSubjects_expandRelation h
  | union children ih =>
      obtain ⟨-, trees, htrees, rfl⟩ := ExpandEngine.union_eq_ok.mp h
      exact hchildren ih htrees
  | intersection children ih =>
      obtain ⟨-, trees, htrees, rfl⟩ := ExpandEngine.intersection_eq_ok.mp h
      exact hchildren ih htrees
  | exclusion base excluded ihBase ihExcluded =>
      obtain ⟨-, baseTree, excludedTree, hbase, -, rfl⟩ :=
        ExpandEngine.exclusion_eq_ok.mp h
      rw [AuthzService.collectSubjects, reachRule]
      exact ihBase hbase
  | arrow rel perm =>
      obtain ⟨-, tuples, children, hread, htrees, rfl⟩ := ExpandEngine.arrow_eq_ok.mp h
      rw [AuthzService.collectSubjects, collectEach_filterMap, reachRule,
        rowSubjects_eq hread, List.flatMap_map, List.filter_flatMap]
      exact flatMap_eq_of_forall₂ htrees fun t _ child hchild =>
        collectSubjects_expandTarget hnext hchild

theorem collects_expandWithin (subjectType : String) (levels : Nat) :
    Collects reader subjectType (ExpandEngine.expandWithin ⟨schema, config⟩ levels)
      (fun snapshot => reachWithin schema reader snapshot levels) := by
  induction levels with
  | zero =>
      intro rule objectType objectId ctx tree h
      cases h
  | succ levels ih =>
      intro rule objectType objectId ctx tree h
      exact collectSubjects_ruleBody ih h

/-- **The subjects collected from an expansion are the ones reached.** -/
theorem collectSubjects_expand {request : ExpandRequest} {tree : ExpandTree}
    (subjectType : String)
    (h : Fallible.eval reader (ExpandEngine.expand ⟨schema, config⟩ request) = .ok tree) :
    AuthzService.collectSubjects subjectType tree =
      (reached schema reader request.snapshot (config.maxDepth + 1) request.objectType
        request.objectId request.permission).filter
          (fun s => s.subjectType = subjectType) := by
  obtain ⟨td, pd, htype, hperm, heval⟩ := ExpandEngine.declared_of_expand h
  rw [reached, permissionRule_eq htype, hperm]
  exact collects_expandWithin subjectType _ _ _ _ _ _ heval

end Collected

/-! ## Naming each subject once -/

instance : Std.Total AuthzService.subjectLe where
  total a b := by
    unfold AuthzService.subjectLe
    rcases lt_trichotomy a.subjectType b.subjectType with hlt | heq | hgt
    · exact Or.inl (Or.inl hlt)
    · rcases le_total a.subjectId b.subjectId with hle | hge
      · exact Or.inl (Or.inr ⟨heq, hle⟩)
      · exact Or.inr (Or.inr ⟨heq.symm, hge⟩)
    · exact Or.inr (Or.inl hgt)

instance : IsTrans SubjectRef AuthzService.subjectLe where
  trans a b c hab hbc := by
    rcases hab with hab | ⟨hab, hid⟩
    · rcases hbc with hbc | ⟨hbc, -⟩
      · exact Or.inl (hab.trans hbc)
      · exact Or.inl (hbc ▸ hab)
    · rcases hbc with hbc | ⟨hbc, hid'⟩
      · exact Or.inl (hab ▸ hbc)
      · exact Or.inr ⟨hab.trans hbc, hid.trans hid'⟩

/-- The sort does not tell subjects of one type and id apart. -/
theorem subjectLe_both_iff {a b : SubjectRef} :
    AuthzService.subjectLe a b ∧ AuthzService.subjectLe b a ↔
      a.subjectType = b.subjectType ∧ a.subjectId = b.subjectId := by
  constructor
  · rintro ⟨hab | ⟨htype, hab⟩, hba | ⟨htype', hba⟩⟩
    · exact absurd hab hba.asymm
    · exact absurd hab htype'.not_gt
    · exact absurd hba htype.not_gt
    · exact ⟨htype, hab.antisymm hba⟩
  · rintro ⟨htype, hid⟩
    exact ⟨Or.inr ⟨htype, hid.le⟩, Or.inr ⟨htype.symm, hid.ge⟩⟩

/-- No subject of the type is met again after another of its id. -/
def Unseparated (subjectType : String) (subjects : List SubjectRef) : Prop :=
  ∀ subjectId relation relation', relation ≠ relation' →
    ¬ [⟨subjectType, subjectId, relation⟩, ⟨subjectType, subjectId, relation'⟩,
      ⟨subjectType, subjectId, relation⟩].Sublist subjects

/-- Sorting and adjacent removal leave the subjects of one type distinct exactly
when none is met again after another of its id. -/
theorem nodup_sorted_iff (subjectType : String) (subjects : List SubjectRef) :
    (((subjects.filter (fun s => s.subjectType = subjectType)).insertionSort
        AuthzService.subjectLe).destutter (· ≠ ·)).Nodup ↔
      Unseparated subjectType subjects := by
  rw [nodup_destutter_insertionSort_iff]
  constructor
  · intro h subjectId relation relation' hne hsub
    obtain ⟨hle, hge⟩ : AuthzService.subjectLe ⟨subjectType, subjectId, relation⟩
        ⟨subjectType, subjectId, relation'⟩ ∧ AuthzService.subjectLe
        ⟨subjectType, subjectId, relation'⟩ ⟨subjectType, subjectId, relation⟩ :=
      subjectLe_both_iff.mpr ⟨rfl, rfl⟩
    refine h _ _ ?_ hle hge ?_
    · intro heq
      exact hne (congrArg SubjectRef.subjectRelation heq)
    · have hfilter := hsub.filter (fun s => s.subjectType = subjectType)
      simpa using hfilter
  · rintro h ⟨st, si, relation⟩ ⟨st', si', relation'⟩ hne hle hge hsub
    obtain ⟨rfl, rfl⟩ : st = st' ∧ si = si' := subjectLe_both_iff.mp ⟨hle, hge⟩
    have htype := List.of_mem_filter (hsub.subset List.mem_cons_self)
    obtain rfl : st = subjectType := of_decide_eq_true htype
    refine h si relation relation' ?_ (hsub.trans List.filter_sublist)
    rintro rfl
    exact hne rfl

/-- The subjects that the permission of a request reaches in a store, in the order
the store returns its rows. -/
def LookupSubjectsInput.reached (schema : Schema) (config : EngineConfig)
    (answer : ∀ q : StoreQuery, q.Reply) (input : LookupSubjectsInput) :
    List SubjectRef :=
  match Fallible.eval answer (AuthzService.resolveSnapshot input.consistency) with
  | .ok snapshot =>
      Kraalzibar.reached schema (StoreTupleReader.over answer) snapshot
        (config.maxDepth + 1) input.objectType input.objectId input.permission
  | .error _ => []

/-- **When a lookup names each subject once.**  Whatever the schema, the limits and
the store, the list a successful lookup returns has no repetition exactly when the
permission reaches no subject of the requested type again after another subject of
the same id. -/
theorem lookupSubjects_nodup_iff (schema : Schema) (config : EngineConfig)
    (answer : ∀ q : StoreQuery, q.Reply) (input : LookupSubjectsInput)
    (output : LookupSubjectsOutput)
    (hlookup : Fallible.eval answer (AuthzService.lookupSubjects schema config input) =
      .ok output) :
    output.subjects.Nodup ↔
      Unseparated input.subjectType (input.reached schema config answer) := by
  obtain ⟨snapshot, tree, hsnapshot, hexpand, rfl⟩ := lookupSubjects_of_ok hlookup
  rw [LookupSubjectsInput.reached, hsnapshot, ← nodup_sorted_iff,
    collectSubjects_expand input.subjectType hexpand]

/-- `definition group { relation member: user | group#member } definition document
{ relation viewer: group | group#member relation editor: group permission view =
viewer + editor }`. -/
def rolesSchema : Schema where
  types :=
    [{ name := "user", relations := [], permissions := [] },
     { name := "group"
       relations := [⟨"member", [⟨"user", none⟩, ⟨"group", some "member"⟩]⟩]
       permissions := [] },
     { name := "document"
       relations := [⟨"viewer", [⟨"group", none⟩, ⟨"group", some "member"⟩]⟩,
         ⟨"editor", [⟨"group", none⟩]⟩]
       permissions := [⟨"view", .union [.this "viewer", .this "editor"]⟩] }]

/-- The document's viewers are a group and the members of all, whose members are the
members of that group; the document's editors are the given groups. -/
def rolesState (editors : List String) : InnerState :=
  InMemoryStore.store.afterWrites InMemoryStore.new
    [⟨[⟨⟨"document", "readme"⟩, "viewer", .direct "group" "eng"⟩,
        ⟨⟨"document", "readme"⟩, "viewer", .userset "group" "all" "member"⟩,
        ⟨⟨"group", "all"⟩, "member", .userset "group" "eng" "member"⟩] ++
      editors.map (fun g => ⟨⟨"document", "readme"⟩, "editor", .direct "group" g⟩), []⟩]

/-- Without editors, the group and its members are each reached once. -/
theorem lookupSubjects_nodup_viewers :
    Fallible.eval (InMemoryStore.store.query (rolesState []))
      (AuthzService.lookupSubjects rolesSchema {}
        ⟨"document", "readme", "view", "group", .fullConsistency⟩) =
      .ok ⟨[.direct "group" "eng", .userset "group" "eng" "member"], some 1⟩ ∧
    Unseparated "group" (LookupSubjectsInput.reached rolesSchema {}
      (InMemoryStore.store.query (rolesState []))
      ⟨"document", "readme", "view", "group", .fullConsistency⟩) :=
  ⟨by decide +kernel,
    (lookupSubjects_nodup_iff rolesSchema {} (InMemoryStore.store.query (rolesState []))
      ⟨"document", "readme", "view", "group", .fullConsistency⟩
      ⟨[.direct "group" "eng", .userset "group" "eng" "member"], some 1⟩
      (by decide +kernel)).mp (by decide)⟩

/-- **A group named twice.**  The group is an editor too: it is reached again after
its members, and the lookup names it twice. -/
theorem group_named_twice :
    parseSchema "definition user {} definition group \x7b
      relation member: user | group#member \x7d
      definition document \x7b relation viewer: group | group#member
      relation editor: group permission view = viewer + editor \x7d" =
        .ok rolesSchema ∧
    Fallible.eval (InMemoryStore.store.query (rolesState ["eng"]))
      (AuthzService.lookupSubjects rolesSchema {}
        ⟨"document", "readme", "view", "group", .fullConsistency⟩) =
      .ok ⟨[.direct "group" "eng", .userset "group" "eng" "member",
        .direct "group" "eng"], some 1⟩ ∧
    ¬ [SubjectRef.direct "group" "eng", .userset "group" "eng" "member",
      .direct "group" "eng"].Nodup := by
  decide +kernel

end Kraalzibar
