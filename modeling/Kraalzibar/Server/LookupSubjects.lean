import Kraalzibar.Core.ExpandAgreement
import Kraalzibar.Server.Service
import Kraalzibar.Storage.Memory

/-!
# Which subjects a lookup names

`lookup_subjects` walks the expansion tree and collects every leaf it meets:
below an intersection it collects from each operand, and below an exclusion
from the base.  So it names the subjects that the permission would grant if
every intersection were a union and every exclusion were its base alone.

* `Schema.widen` — the schema read in that way;
* `mem_collectSubjects_iff` — the collected subjects are the members of the
  widened tree;
* `lookupSubjects_sound_iff` — every subject named has the permission exactly
  when widening the schema grants nobody more;
* `intersection_operand_named` — a subject of one operand only is named.
-/

namespace Kraalzibar

open Foundations

/-! ## Widening -/

namespace RewriteRule

mutual

/-- The rule with every intersection read as a union and every exclusion read as
its base. -/
def widen : RewriteRule → RewriteRule
  | .this name => .this name
  | .union children => .union (widenEach children)
  | .intersection children => .union (widenEach children)
  | .exclusion base _ => widen base
  | .arrow tuplesetRel computedPerm => .arrow tuplesetRel computedPerm

def widenEach : List RewriteRule → List RewriteRule
  | [] => []
  | child :: children => widen child :: widenEach children

end

theorem widenEach_eq (children : List RewriteRule) :
    widenEach children = children.map widen := by
  induction children with
  | nil => rfl
  | cons child children ih => rw [widenEach, ih, List.map_cons]

end RewriteRule

def PermissionDef.widen (pd : PermissionDef) : PermissionDef :=
  { pd with rule := pd.rule.widen }

def TypeDefinition.widen (td : TypeDefinition) : TypeDefinition :=
  { td with permissions := td.permissions.map PermissionDef.widen }

def Schema.widen (schema : Schema) : Schema :=
  { types := schema.types.map TypeDefinition.widen }

theorem Schema.getType_widen (schema : Schema) (name : String) :
    schema.widen.getType name = (schema.getType name).map TypeDefinition.widen := by
  unfold Schema.getType Schema.widen
  rw [List.find?_map]
  rfl

theorem TypeDefinition.getPermission_widen (td : TypeDefinition) (name : String) :
    td.widen.getPermission name = (td.getPermission name).map PermissionDef.widen := by
  unfold TypeDefinition.getPermission TypeDefinition.widen
  rw [List.find?_map]
  rfl

theorem TypeDefinition.getRelation_widen (td : TypeDefinition) (name : String) :
    td.widen.getRelation name = td.getRelation name := rfl

namespace ExpandTree

mutual

/-- The tree with intersections and exclusions widened. -/
def widen : ExpandTree → ExpandTree
  | .leaf subject => .leaf subject
  | .this relation subjects => .this relation (widenEach subjects)
  | .union children => .union (widenEach children)
  | .intersection children => .union (widenEach children)
  | .exclusion base _ => widen base
  | .arrow rel perm children => .arrow rel perm (widenEach children)

def widenEach : List ExpandTree → List ExpandTree
  | [] => []
  | child :: children => widen child :: widenEach children

end

theorem widenEach_eq (children : List ExpandTree) :
    widenEach children = children.map widen := by
  induction children with
  | nil => rfl
  | cons child children ih => rw [widenEach, ih, List.map_cons]

end ExpandTree

/-! ## Expanding a widened schema -/

namespace ExpandEngine

variable {engine : ExpandEngine} {reader : TupleReader}

/-- The expand engine over the widened schema. -/
def widen (engine : ExpandEngine) : ExpandEngine :=
  { schema := engine.schema.widen, config := engine.config }

/-- Wherever `next` expands a rule, `next'` expands the widened rule to the
widened tree. -/
def Widens (reader : TupleReader) (next next' : Expander) : Prop :=
  ∀ rule objectType objectId ctx tree,
    Fallible.eval reader (next rule objectType objectId ctx) = .ok tree →
    Fallible.eval reader (next' rule.widen objectType objectId ctx) = .ok tree.widen

/-- A stored relation expands to leaves, which widening keeps. -/
theorem expandRelation_widen {name objectType objectId : String} {ctx : ExpandContext}
    {tree : ExpandTree}
    (h : Fallible.eval reader (expandRelation name objectType objectId ctx) = .ok tree) :
    tree.widen = tree := by
  have hleaves : ∀ t leaves, Fallible.eval reader (expandTuple ctx t) = .ok leaves →
      ∀ leaf ∈ leaves, leaf.widen = leaf := by
    intro t leaves ht leaf hleaf
    rcases expandTuple_eq_ok.mp ht with ⟨-, rfl⟩ | ⟨rel, members, -, -, rfl⟩
    · rw [List.mem_singleton.mp hleaf]
      rfl
    · obtain ⟨ut, -, rfl⟩ := List.mem_map.mp hleaf
      rfl
  obtain ⟨tuples, groups, -, hgroups, rfl⟩ := expandRelation_eq_ok.mp h
  rw [ExpandTree.widen, ExpandTree.widenEach_eq]
  congr 1
  refine (List.map_congr_left ?_).trans (List.map_id _)
  intro leaf hleaf
  obtain ⟨group, hgroup, hmem⟩ := List.mem_flatten.mp hleaf
  obtain ⟨t, -, ht⟩ := exists_of_forall₂ hgroups hgroup
  exact hleaves t group ht leaf hmem

/-- What an arrow target of the widened schema adds. -/
theorem expandTarget_widen {next next' : Expander} (hnext : Widens reader next next')
    {perm : String} {ctx : ExpandContext} {t : Tuple} {child : Option ExpandTree}
    (h : Fallible.eval reader (engine.expandTarget next perm ctx t) = .ok child) :
    Fallible.eval reader (engine.widen.expandTarget next' perm ctx t) =
      .ok (child.map ExpandTree.widen) := by
  rcases expandTarget_of_ok h with
    ⟨hvisited, rfl⟩ | ⟨hfresh, td, pd, tree, htype, hperm, htree, rfl⟩
  · simp [expandTarget, hvisited]
  · have hwide := hnext _ _ _ _ _ htree
    simp only [expandTarget, hfresh, if_false, widen, Schema.getType_widen, htype,
      Option.map_some, TypeDefinition.getPermission_widen, hperm, PermissionDef.widen,
      Fallible.eval_bind, hwide, ok_bind, Fallible.eval_pure]

/-- **One rule.**  If the deeper expansions widen, so does the body of a rule. -/
theorem ruleBody_widen {next next' : Expander} (hnext : Widens reader next next')
    {objectType objectId : String} {ctx : ExpandContext} {rule : RewriteRule}
    {tree : ExpandTree}
    (h : Fallible.eval reader (engine.ruleBody next objectType objectId ctx rule) =
      .ok tree) :
    Fallible.eval reader (engine.widen.ruleBody next' objectType objectId ctx rule.widen) =
      .ok tree.widen := by
  have hchildren : ∀ {children : List RewriteRule} {trees : List ExpandTree},
      (∀ c ∈ children, ∀ {tree}, Fallible.eval reader
        (engine.ruleBody next objectType objectId ctx c) = .ok tree →
        Fallible.eval reader (engine.widen.ruleBody next' objectType objectId ctx c.widen) =
          .ok tree.widen) →
      List.Forall₂ (fun c child => Fallible.eval reader
        (engine.ruleBody next objectType objectId ctx c) = .ok child) children trees →
      List.Forall₂ (fun c child => Fallible.eval reader
        (engine.widen.ruleBody next' objectType objectId ctx c) = .ok child)
          (children.map RewriteRule.widen) (trees.map ExpandTree.widen) := by
    intro children trees hc htrees
    rw [List.forall₂_map_left_iff, List.forall₂_map_right_iff]
    induction htrees with
    | nil => exact .nil
    | @cons c tree children trees hhead _ ih =>
        exact .cons (hc c List.mem_cons_self hhead)
          (ih (fun c' hc' => hc c' (List.mem_cons_of_mem c hc')))
  induction rule generalizing tree with
  | this name =>
      obtain ⟨hdepth, h⟩ := withinDepth_eq_ok.mp h
      rw [RewriteRule.widen, ruleBody, withinDepth_eq_ok]
      refine ⟨hdepth, ?_⟩
      rcases expandThis_of_ok h with
        ⟨td, pd, htype, hperm, h⟩ | ⟨td, rd, htype, hperm, hrel, h⟩
      · simp only [expandThis, widen, Schema.getType_widen, htype, Option.map_some,
          TypeDefinition.getPermission_widen, hperm]
        exact hnext _ _ _ _ _ h
      · simp only [expandThis, widen, Schema.getType_widen, htype, Option.map_some,
          TypeDefinition.getPermission_widen, hperm, Option.map_none,
          TypeDefinition.getRelation_widen, hrel]
        rw [expandRelation_widen h]
        exact h
  | union children ih =>
      obtain ⟨hdepth, trees, htrees, rfl⟩ := union_eq_ok.mp h
      rw [RewriteRule.widen, RewriteRule.widenEach_eq, ExpandTree.widen,
        ExpandTree.widenEach_eq, union_eq_ok]
      exact ⟨hdepth, _, hchildren ih htrees, rfl⟩
  | intersection children ih =>
      obtain ⟨hdepth, trees, htrees, rfl⟩ := intersection_eq_ok.mp h
      rw [RewriteRule.widen, RewriteRule.widenEach_eq, ExpandTree.widen,
        ExpandTree.widenEach_eq, union_eq_ok]
      exact ⟨hdepth, _, hchildren ih htrees, rfl⟩
  | exclusion base excluded ihBase ihExcluded =>
      obtain ⟨-, baseTree, excludedTree, hbase, -, rfl⟩ := exclusion_eq_ok.mp h
      rw [RewriteRule.widen, ExpandTree.widen]
      exact ihBase hbase
  | arrow rel perm =>
      obtain ⟨hdepth, tuples, children, hread, htrees, rfl⟩ := arrow_eq_ok.mp h
      rw [RewriteRule.widen, arrow_eq_ok]
      refine ⟨hdepth, tuples, children.map (Option.map ExpandTree.widen), hread, ?_, ?_⟩
      · rw [List.forall₂_map_right_iff]
        exact htrees.imp fun t child hchild => expandTarget_widen hnext hchild
      · rw [ExpandTree.widen, ExpandTree.widenEach_eq, List.filterMap_map,
          List.map_filterMap]
        rfl

theorem expandWithin_widen (remaining : Nat) :
    Widens reader (engine.expandWithin remaining) (engine.widen.expandWithin remaining) := by
  induction remaining with
  | zero =>
      intro rule objectType objectId ctx tree h
      cases h
  | succ n ih =>
      intro rule objectType objectId ctx tree h
      exact ruleBody_widen ih h

/-- **The widened schema expands to the widened tree.** -/
theorem expand_widen {request : ExpandRequest} {tree : ExpandTree}
    (h : Fallible.eval reader (engine.expand request) = .ok tree) :
    Fallible.eval reader (engine.widen.expand request) = .ok tree.widen := by
  obtain ⟨td, pd, htype, hperm, heval⟩ := declared_of_expand h
  simp only [expand, widen, Schema.getType_widen, htype, Option.map_some,
    TypeDefinition.getPermission_widen, hperm]
  exact expandWithin_widen _ _ _ _ _ _ heval

end ExpandEngine

/-! ## What is collected -/

theorem collectEach_eq (subjectType : String) (children : List ExpandTree) :
    AuthzService.collectEach subjectType children =
      children.flatMap (AuthzService.collectSubjects subjectType) := by
  induction children with
  | nil => rfl
  | cons child children ih =>
      rw [AuthzService.collectEach, ih, List.flatMap_cons]

/-- Only subjects of the requested type are collected. -/
theorem subjectType_of_mem_collectSubjects {subjectType : String} {tree : ExpandTree}
    {s : SubjectRef} (h : s ∈ AuthzService.collectSubjects subjectType tree) :
    s.subjectType = subjectType := by
  have hchildren : ∀ {children : List ExpandTree},
      (∀ c ∈ children, s ∈ AuthzService.collectSubjects subjectType c →
        s.subjectType = subjectType) →
      s ∈ AuthzService.collectEach subjectType children → s.subjectType = subjectType := by
    intro children hc hs
    rw [collectEach_eq, List.mem_flatMap] at hs
    obtain ⟨c, hmem, hs⟩ := hs
    exact hc c hmem hs
  induction tree with
  | leaf subject =>
      unfold AuthzService.collectSubjects at h
      split at h
      · rename_i htype
        rw [List.mem_singleton] at h
        rw [h, htype]
      · cases h
  | this relation subjects ih => exact hchildren ih h
  | union children ih => exact hchildren ih h
  | intersection children ih => exact hchildren ih h
  | exclusion base excluded ihBase ihExcluded => exact ihBase h
  | arrow rel perm children ih => exact hchildren ih h

/-- **The collected direct subjects are the members of the widened tree.** -/
theorem mem_collectSubjects_iff (subjectType subjectId : String) (tree : ExpandTree) :
    SubjectRef.direct subjectType subjectId ∈
        AuthzService.collectSubjects subjectType tree ↔
      tree.widen.member subjectType subjectId = true := by
  have hchildren : ∀ {children : List ExpandTree},
      (∀ c ∈ children, SubjectRef.direct subjectType subjectId ∈
        AuthzService.collectSubjects subjectType c ↔
          c.widen.member subjectType subjectId = true) →
      (SubjectRef.direct subjectType subjectId ∈
        AuthzService.collectEach subjectType children ↔
          ExpandTree.memberAny subjectType subjectId
            (ExpandTree.widenEach children) = true) := by
    intro children hc
    rw [collectEach_eq, List.mem_flatMap, ExpandTree.memberAny_eq,
      ExpandTree.widenEach_eq, List.any_map, List.any_eq_true]
    exact exists_congr fun c => and_congr_right fun hmem => hc c hmem
  induction tree with
  | leaf subject =>
      unfold AuthzService.collectSubjects
      rw [ExpandTree.widen, ExpandTree.member, decide_eq_true_eq]
      by_cases htype : subject.subjectType = subjectType
      · rw [if_pos htype, List.mem_singleton]
        exact eq_comm
      · rw [if_neg htype]
        constructor
        · intro h
          cases h
        · intro h
          exact absurd (congrArg SubjectRef.subjectType h) htype
  | this relation subjects ih => exact hchildren ih
  | union children ih => exact hchildren ih
  | intersection children ih => exact hchildren ih
  | exclusion base excluded ihBase ihExcluded => exact ihBase
  | arrow rel perm children ih => exact hchildren ih

/-! ## Requests on an unchanging store -/

/-- Through the adapter, an in-memory store serves the tuples visible at a
snapshot it can resolve. -/
theorem serves_memory {state : InnerState} {snapshot : Option SnapshotToken} {s : Nat}
    (hresolve : InMemoryStore.resolve state snapshot = .ok s) :
    Serves (StoreTupleReader.over (InMemoryStore.store.query state)) snapshot
      (state.visible s) := by
  have hread : ∀ filter, InMemoryStore.store.query state (.read filter snapshot none) =
      .ok ((state.visible s).filter (fun t => filter.matches t)) := by
    intro filter
    show InMemoryStore.read state filter snapshot none = _
    rw [InMemoryStore.read_eq, hresolve]
    rfl
  exact StoreTupleReader.serves_over hread fun _ _ => List.mem_filter

/-- Through the adapter, an in-memory store reads from the tuples visible at the
snapshot, or fails on every filter. -/
theorem readsFrom_memory (state : InnerState) (snapshot : Option SnapshotToken) :
    ∃ T, ReadsFrom (StoreTupleReader.over (InMemoryStore.store.query state))
      snapshot T := by
  cases hresolve : InMemoryStore.resolve state snapshot with
  | error e =>
      have hread : ∀ filter,
          InMemoryStore.store.query state (.read filter snapshot none) = .error e := by
        intro filter
        show InMemoryStore.read state filter snapshot none = _
        rw [InMemoryStore.read_eq, hresolve]
        rfl
      exact ⟨[], StoreTupleReader.readsFrom_over hread⟩
  | ok s => exact ⟨state.visible s, (serves_memory hresolve).readsFrom⟩

/-- A check request on an unchanging store whose expansion succeeds answers with
membership in the tree. -/
theorem checkPermission_of_expand (schema : Schema) (config : EngineConfig)
    {answer : ∀ q : StoreQuery, q.Reply} {input : LookupSubjectsInput}
    {snapshot : Option SnapshotToken} {T : List Tuple} {tree : ExpandTree}
    (hreads : ReadsFrom (StoreTupleReader.over answer) snapshot T)
    (hsnapshot : Fallible.eval answer
      (AuthzService.resolveSnapshot input.consistency) = .ok snapshot)
    (hexpand : Fallible.eval (StoreTupleReader.over answer)
      (ExpandEngine.expand ⟨schema, config⟩
        ⟨input.objectType, input.objectId, input.permission, snapshot⟩) = .ok tree)
    (subjectType subjectId : String) :
    Fallible.eval answer (AuthzService.checkPermission schema config
        ⟨input.objectType, input.objectId, input.permission, subjectType, subjectId,
          input.consistency⟩) =
      .ok ⟨tree.member subjectType subjectId, snapshot⟩ := by
  have hcheck : Fallible.eval (StoreTupleReader.over answer)
      (CheckEngine.check ⟨schema, config⟩ ⟨input.objectType, input.objectId,
        input.permission, subjectType, subjectId, snapshot⟩) =
      .ok ⟨tree.member subjectType subjectId⟩ :=
    ExpandEngine.check_of_expand hreads hexpand subjectType subjectId
  simp only [AuthzService.checkPermission, Fallible.eval_bind, hsnapshot, ok_bind,
    StoreTupleReader.eval_run, hcheck]
  rfl

/-- A lookup that answers expanded the permission, sorted what it collected and
removed adjacent repetitions. -/
theorem lookupSubjects_of_ok {schema : Schema} {config : EngineConfig}
    {answer : ∀ q : StoreQuery, q.Reply} {input : LookupSubjectsInput}
    {output : LookupSubjectsOutput}
    (h : Fallible.eval answer (AuthzService.lookupSubjects schema config input) =
      .ok output) :
    ∃ snapshot tree,
      Fallible.eval answer (AuthzService.resolveSnapshot input.consistency) = .ok snapshot ∧
      Fallible.eval (StoreTupleReader.over answer) (ExpandEngine.expand ⟨schema, config⟩
        ⟨input.objectType, input.objectId, input.permission, snapshot⟩) = .ok tree ∧
      output = ⟨((AuthzService.collectSubjects input.subjectType tree).insertionSort
        AuthzService.subjectLe).destutter (· ≠ ·), snapshot⟩ := by
  simp only [AuthzService.lookupSubjects, AuthzService.expandPermissionTree,
    Fallible.eval_bind, StoreTupleReader.eval_run, Fallible.eval_pure] at h
  cases hsnapshot : Fallible.eval answer
      (AuthzService.resolveSnapshot input.consistency) with
  | error e => simp [hsnapshot] at h
  | ok snapshot =>
      simp only [hsnapshot, ok_bind] at h
      cases hexpand : Fallible.eval (StoreTupleReader.over answer)
          (ExpandEngine.expand ⟨schema, config⟩
            ⟨input.objectType, input.objectId, input.permission, snapshot⟩) with
      | error e =>
          rw [hexpand] at h
          cases h
      | ok tree =>
          rw [hexpand] at h
          exact ⟨snapshot, tree, rfl, hexpand, (Except.ok.inj h).symm⟩

/-- A lookup that answers expanded the permission, and names what it collected. -/
theorem lookupSubjects_cases {schema : Schema} {config : EngineConfig}
    {answer : ∀ q : StoreQuery, q.Reply} {input : LookupSubjectsInput}
    {output : LookupSubjectsOutput}
    (h : Fallible.eval answer (AuthzService.lookupSubjects schema config input) =
      .ok output) :
    ∃ snapshot tree,
      Fallible.eval answer (AuthzService.resolveSnapshot input.consistency) = .ok snapshot ∧
      Fallible.eval (StoreTupleReader.over answer) (ExpandEngine.expand ⟨schema, config⟩
        ⟨input.objectType, input.objectId, input.permission, snapshot⟩) = .ok tree ∧
      output.snapshot = snapshot ∧
      ∀ s, s ∈ output.subjects ↔ s ∈ AuthzService.collectSubjects input.subjectType tree := by
  obtain ⟨snapshot, tree, hsnapshot, hexpand, rfl⟩ := lookupSubjects_of_ok h
  refine ⟨snapshot, tree, hsnapshot, hexpand, rfl, fun s => ?_⟩
  rw [mem_destutter_ne, List.mem_insertionSort]

/-- **When a lookup names only subjects that have the permission.**  On an
unchanging store, every direct subject a successful lookup names is allowed by
the check if and only if widening the schema grants the permission to no further
subject of the requested type. -/
theorem lookupSubjects_sound_iff (schema : Schema) (config : EngineConfig)
    (state : InnerState) (input : LookupSubjectsInput) (output : LookupSubjectsOutput)
    (hlookup : Fallible.eval (InMemoryStore.store.query state)
      (AuthzService.lookupSubjects schema config input) = .ok output) :
    (∀ s ∈ output.subjects, s.subjectRelation = none →
      Fallible.eval (InMemoryStore.store.query state)
        (AuthzService.checkPermission schema config ⟨input.objectType, input.objectId,
          input.permission, s.subjectType, s.subjectId, input.consistency⟩) =
        .ok ⟨true, output.snapshot⟩) ↔
    (∀ subjectId,
      Fallible.eval (InMemoryStore.store.query state)
        (AuthzService.checkPermission schema.widen config ⟨input.objectType,
          input.objectId, input.permission, input.subjectType, subjectId,
          input.consistency⟩) = .ok ⟨true, output.snapshot⟩ →
      Fallible.eval (InMemoryStore.store.query state)
        (AuthzService.checkPermission schema config ⟨input.objectType, input.objectId,
          input.permission, input.subjectType, subjectId, input.consistency⟩) =
        .ok ⟨true, output.snapshot⟩) := by
  obtain ⟨snapshot, tree, hsnapshot, hexpand, hout, hmem⟩ := lookupSubjects_cases hlookup
  obtain ⟨T, hreads⟩ := readsFrom_memory state snapshot
  have hcheck := checkPermission_of_expand schema config hreads hsnapshot hexpand
  have hwide := checkPermission_of_expand schema.widen config hreads hsnapshot
    (ExpandEngine.expand_widen hexpand)
  have hnamed : ∀ subjectId, SubjectRef.direct input.subjectType subjectId ∈
      output.subjects ↔ tree.widen.member input.subjectType subjectId = true := by
    intro subjectId
    rw [hmem, mem_collectSubjects_iff]
  have hallowed : ∀ b : Bool, (Except.ok ⟨b, snapshot⟩ : Except ApiError
      CheckPermissionOutput) = .ok ⟨true, snapshot⟩ ↔ b = true := by
    intro b
    simp
  simp only [hout, hcheck, hwide, hallowed, ← hnamed]
  constructor
  · intro h subjectId hs
    exact h _ hs rfl
  · intro h s hs hdirect
    obtain ⟨st, si, sr⟩ := s
    obtain rfl : sr = none := hdirect
    obtain rfl : st = input.subjectType :=
      subjectType_of_mem_collectSubjects ((hmem _).mp hs)
    exact h si hs

/-- `definition document { relation viewer: user relation approved: user
permission view = viewer & approved }`. -/
def approvalSchema : Schema where
  types :=
    [{ name := "user", relations := [], permissions := [] },
     { name := "document"
       relations := [⟨"viewer", [⟨"user", none⟩]⟩, ⟨"approved", [⟨"user", none⟩]⟩]
       permissions := [⟨"view", .intersection [.this "viewer", .this "approved"]⟩] }]

theorem parseSchema_approval :
    parseSchema "definition user {} definition document \x7b
      relation viewer: user relation approved: user
      permission view = viewer & approved \x7d" = .ok approvalSchema := by
  decide +kernel

/-- A store in which each relation of the document has the given users. -/
def approvalState (viewers approved : List String) : InnerState :=
  InMemoryStore.store.afterWrites InMemoryStore.new
    [⟨viewers.map (fun u => ⟨⟨"document", "readme"⟩, "viewer", .direct "user" u⟩) ++
      approved.map (fun u => ⟨⟨"document", "readme"⟩, "approved", .direct "user" u⟩), []⟩]

/-- Where every viewer is approved, the lookup names the viewers, and widening the
schema grants nobody more. -/
theorem lookupSubjects_sound_approved :
    Fallible.eval (InMemoryStore.store.query (approvalState ["alice"] ["alice"]))
      (AuthzService.lookupSubjects approvalSchema {}
        ⟨"document", "readme", "view", "user", .fullConsistency⟩) =
      .ok ⟨[.direct "user" "alice"], some 1⟩ ∧
    ∀ subjectId,
      Fallible.eval (InMemoryStore.store.query (approvalState ["alice"] ["alice"]))
        (AuthzService.checkPermission approvalSchema.widen {} ⟨"document", "readme", "view",
          "user", subjectId, .fullConsistency⟩) = .ok ⟨true, some 1⟩ →
      Fallible.eval (InMemoryStore.store.query (approvalState ["alice"] ["alice"]))
        (AuthzService.checkPermission approvalSchema {} ⟨"document", "readme", "view",
          "user", subjectId, .fullConsistency⟩) = .ok ⟨true, some 1⟩ :=
  ⟨by decide +kernel,
    (lookupSubjects_sound_iff approvalSchema {} (approvalState ["alice"] ["alice"])
      ⟨"document", "readme", "view", "user", .fullConsistency⟩
      ⟨[.direct "user" "alice"], some 1⟩ (by decide +kernel)).mp (by decide +kernel)⟩

/-- **A subject of one operand is named.**  Alice is a viewer and not approved:
the lookup names her, and the check at the same store state denies her. -/
theorem intersection_operand_named :
    Fallible.eval (InMemoryStore.store.query (approvalState ["alice"] []))
      (AuthzService.lookupSubjects approvalSchema {}
        ⟨"document", "readme", "view", "user", .fullConsistency⟩) =
      .ok ⟨[.direct "user" "alice"], some 1⟩ ∧
    Fallible.eval (InMemoryStore.store.query (approvalState ["alice"] []))
      (AuthzService.checkPermission approvalSchema {}
        ⟨"document", "readme", "view", "user", "alice", .fullConsistency⟩) =
      .ok ⟨false, some 1⟩ := by
  decide +kernel

end Kraalzibar
