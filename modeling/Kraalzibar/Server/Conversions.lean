import Kraalzibar.Core.CheckCorrect
import Kraalzibar.Core.ExpandAgreement

/-!
# Expansion trees on the wire

The protobuf tree has one intermediate node with an operation code, so `This`,
`Union` and `Arrow` nodes of the engine become the same union on the wire and
an exclusion becomes a node with two children in order.  `expand_check_agree`
follows membership from the check engine through the expansion to the wire.
-/

namespace Kraalzibar

open Foundations

namespace V1

structure SubjectReference where
  subjectType : String
  subjectId : String
  subjectRelation : Option String
deriving DecidableEq

inductive Operation where
  | unspecified
  | union
  | intersection
  | exclusion

/-- `operation as i32` -/
def Operation.toI32 : Operation → Int
  | .unspecified => 0
  | .union => 1
  | .intersection => 2
  | .exclusion => 3

/-- `PermissionExpansionTree` with its `oneof node`, which may be absent. -/
inductive PermissionExpansionTree where
  | unset
  | leaf (subject : Option SubjectReference)
  | intermediate (operation : Int) (children : List PermissionExpansionTree)

namespace PermissionExpansionTree

/-- What an intermediate node grants, given what its children do. -/
def combine (operation : Int) (children : List Bool) : Bool :=
  if operation = Operation.union.toI32 then children.any id
  else if operation = Operation.intersection.toI32 then children.all id
  else if operation = Operation.exclusion.toI32 then
    match children with
    | [base, excluded] => base && !excluded
    | _ => false
  else false

mutual

/-- The direct subject `subjectType:subjectId` is granted by the wire tree. -/
def member (subjectType subjectId : String) : PermissionExpansionTree → Bool
  | .unset => false
  | .leaf none => false
  | .leaf (some subject) => decide (subject = ⟨subjectType, subjectId, none⟩)
  | .intermediate operation children =>
      combine operation (memberEach subjectType subjectId children)

def memberEach (subjectType subjectId : String) :
    List PermissionExpansionTree → List Bool
  | [] => []
  | child :: children =>
      member subjectType subjectId child :: memberEach subjectType subjectId children

end

theorem memberEach_eq (subjectType subjectId : String)
    (children : List PermissionExpansionTree) :
    memberEach subjectType subjectId children =
      children.map (member subjectType subjectId) := by
  induction children with
  | nil => rfl
  | cons child children ih => simp [memberEach, ih]

end PermissionExpansionTree

end V1

def domainSubjectToProto (subject : SubjectRef) : V1.SubjectReference :=
  { subjectType := subject.subjectType, subjectId := subject.subjectId,
    subjectRelation := subject.subjectRelation }

mutual

def domainExpandTreeToProto : ExpandTree → V1.PermissionExpansionTree
  | .leaf subject => .leaf (some (domainSubjectToProto subject))
  | .this _ subjects =>
      .intermediate V1.Operation.union.toI32 (domainExpandTreesToProto subjects)
  | .union children =>
      .intermediate V1.Operation.union.toI32 (domainExpandTreesToProto children)
  | .intersection children =>
      .intermediate V1.Operation.intersection.toI32 (domainExpandTreesToProto children)
  | .exclusion base excluded =>
      .intermediate V1.Operation.exclusion.toI32
        [domainExpandTreeToProto base, domainExpandTreeToProto excluded]
  | .arrow _ _ children =>
      .intermediate V1.Operation.union.toI32 (domainExpandTreesToProto children)

def domainExpandTreesToProto : List ExpandTree → List V1.PermissionExpansionTree
  | [] => []
  | child :: children =>
      domainExpandTreeToProto child :: domainExpandTreesToProto children

end

theorem domainExpandTreesToProto_eq (children : List ExpandTree) :
    domainExpandTreesToProto children = children.map domainExpandTreeToProto := by
  induction children with
  | nil => rfl
  | cons child children ih => simp [domainExpandTreesToProto, ih]

/-- Subjects convert without loss. -/
theorem domainSubjectToProto_inj {a b : SubjectRef}
    (h : domainSubjectToProto a = domainSubjectToProto b) : a = b := by
  cases a
  cases b
  simpa [domainSubjectToProto] using h

section

variable (subjectType subjectId : String)

private theorem memberEach_toProto {children : List ExpandTree}
    (h : ∀ c ∈ children, (domainExpandTreeToProto c).member subjectType subjectId =
      c.member subjectType subjectId) :
    V1.PermissionExpansionTree.memberEach subjectType subjectId
        (domainExpandTreesToProto children) =
      children.map (ExpandTree.member subjectType subjectId) := by
  rw [V1.PermissionExpansionTree.memberEach_eq, domainExpandTreesToProto_eq,
    List.map_map]
  exact List.map_congr_left h

/-- The wire tree grants the same subjects as the engine's tree. -/
theorem member_domainExpandTreeToProto (tree : ExpandTree) :
    (domainExpandTreeToProto tree).member subjectType subjectId =
      tree.member subjectType subjectId := by
  induction tree with
  | leaf subject =>
      simp only [domainExpandTreeToProto, V1.PermissionExpansionTree.member,
        ExpandTree.member]
      refine decide_eq_decide.mpr ⟨fun h => ?_, fun h => h ▸ rfl⟩
      exact domainSubjectToProto_inj (b := SubjectRef.direct subjectType subjectId) h
  | this relation subjects ih =>
      simp [domainExpandTreeToProto, V1.PermissionExpansionTree.member,
        V1.PermissionExpansionTree.combine, memberEach_toProto _ _ ih, ExpandTree.member]
  | union children ih =>
      simp [domainExpandTreeToProto, V1.PermissionExpansionTree.member,
        V1.PermissionExpansionTree.combine, memberEach_toProto _ _ ih, ExpandTree.member]
  | intersection children ih =>
      simp [domainExpandTreeToProto, V1.PermissionExpansionTree.member,
        V1.PermissionExpansionTree.combine, V1.Operation.toI32,
        memberEach_toProto _ _ ih, ExpandTree.member]
  | exclusion base excluded ihBase ihExcluded =>
      simp [domainExpandTreeToProto, V1.PermissionExpansionTree.member,
        V1.PermissionExpansionTree.memberEach, V1.PermissionExpansionTree.combine,
        V1.Operation.toI32, ihBase, ihExcluded, ExpandTree.member]
  | arrow rel perm children ih =>
      simp [domainExpandTreeToProto, V1.PermissionExpansionTree.member,
        V1.PermissionExpansionTree.combine, memberEach_toProto _ _ ih, ExpandTree.member]

end

/-- **Expand, check and the wire agree.**  If the expansion of a permission
succeeds, then for every direct subject the check succeeds, and its answer is
membership in the expansion tree and in the tree sent to the client. -/
theorem expand_check_agree (schema : Schema) (config : EngineConfig)
    (T : List Tuple) (reader : TupleReader) (request : ExpandRequest)
    (hreader : Serves reader request.snapshot T) (tree : ExpandTree)
    (hexpand : Fallible.eval reader (ExpandEngine.expand ⟨schema, config⟩ request) =
      .ok tree)
    (subjectType subjectId : String) :
    Fallible.eval reader (CheckEngine.check ⟨schema, config⟩
        { objectType := request.objectType, objectId := request.objectId,
          permission := request.permission, subjectType, subjectId,
          snapshot := request.snapshot }) =
      .ok ⟨tree.member subjectType subjectId⟩ ∧
    (domainExpandTreeToProto tree).member subjectType subjectId =
      tree.member subjectType subjectId :=
  ⟨ExpandEngine.check_of_expand hreader.readsFrom hexpand subjectType subjectId,
    member_domainExpandTreeToProto subjectType subjectId tree⟩

/-- The expansion of `open` on folder `a`: the parent cycle is cut where it
comes back to `b`. -/
def folderExpansion : ExpandTree :=
  .exclusion
    (.union [.this "viewer" [],
      .arrow "parent" "view"
        [.union [.this "viewer" [.leaf (.direct "user" "alice")],
          .arrow "parent" "view" [.union [.this "viewer" [], .arrow "parent" "view" []]]]]])
    (.this "banned" [])

theorem expand_check_agree_folders :
    Fallible.eval (listReader folderTuples) (CheckEngine.check ⟨folderSchema, {}⟩
      ⟨"folder", "a", "open", "user", "alice", none⟩) = .ok ⟨true⟩ ∧
    (domainExpandTreeToProto folderExpansion).member "user" "alice" = true :=
  expand_check_agree folderSchema {} folderTuples (listReader folderTuples)
    ⟨"folder", "a", "open", none⟩ (listReader_serves _ _) folderExpansion rfl
    "user" "alice"

end Kraalzibar
