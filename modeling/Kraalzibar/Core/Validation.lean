import Kraalzibar.Core.Schema

/-!
# Schema limits and breaking changes

A schema write is refused when the new schema is too large, or when it takes
something away from the stored one that tuples may rely on.
-/

namespace Kraalzibar

structure SchemaLimits where
  maxTypes : Nat := 50
  maxRelationsPerType : Nat := 30
  maxPermissionsPerType : Nat := 30

inductive ValidationError where
  | tooManyTypes (count limit : Nat)
  | tooManyRelations (typeName : String) (count limit : Nat)
  | tooManyPermissions (typeName : String) (count limit : Nat)
deriving DecidableEq

inductive BreakingChange where
  | typeRemoved (typeName : String)
  | relationRemoved (typeName relation : String)
  | subjectTypesChanged (typeName relation : String)
deriving DecidableEq

/-- The errors one type definition adds. -/
def typeLimitErrors (limits : SchemaLimits) (typeDef : TypeDefinition) :
    List ValidationError :=
  (if typeDef.relations.length > limits.maxRelationsPerType then
    [.tooManyRelations typeDef.name typeDef.relations.length limits.maxRelationsPerType]
  else []) ++
  (if typeDef.permissions.length > limits.maxPermissionsPerType then
    [.tooManyPermissions typeDef.name typeDef.permissions.length
      limits.maxPermissionsPerType]
  else [])

def validateSchemaLimits (schema : Schema) (limits : SchemaLimits) :
    Except (List ValidationError) Unit :=
  let errors :=
    (if schema.types.length > limits.maxTypes then
      [.tooManyTypes schema.types.length limits.maxTypes]
    else []) ++ schema.types.flatMap (typeLimitErrors limits)
  if errors.isEmpty then .ok () else .error errors

/-- What happens to one relation of a type that the new schema still has. -/
def relationChanges (typeName : String) (newType : TypeDefinition) (oldRel : RelationDef) :
    List BreakingChange :=
  match newType.getRelation oldRel.name with
  | none => [.relationRemoved typeName oldRel.name]
  | some newRel =>
      if oldRel.subjectTypes ≠ newRel.subjectTypes then
        [.subjectTypesChanged typeName oldRel.name]
      else []

/-- What happens to one type of the old schema. -/
def typeChanges (new : Schema) (oldType : TypeDefinition) : List BreakingChange :=
  match new.getType oldType.name with
  | none => [.typeRemoved oldType.name]
  | some newType => oldType.relations.flatMap (relationChanges oldType.name newType)

def detectBreakingChanges (old new : Schema) : List BreakingChange :=
  old.types.flatMap (typeChanges new)

/-- **What no breaking change means.**  Every type is still there, with every
relation it had, listing the same subject types in the same order. -/
theorem detectBreakingChanges_eq_nil_iff (old new : Schema) :
    detectBreakingChanges old new = [] ↔
      ∀ oldType ∈ old.types, ∃ newType, new.getType oldType.name = some newType ∧
        ∀ oldRel ∈ oldType.relations, ∃ newRel,
          newType.getRelation oldRel.name = some newRel ∧
          newRel.subjectTypes = oldRel.subjectTypes := by
  have hrel : ∀ typeName newType oldRel, relationChanges typeName newType oldRel = [] ↔
      ∃ newRel, newType.getRelation oldRel.name = some newRel ∧
        newRel.subjectTypes = oldRel.subjectTypes := by
    intro typeName newType oldRel
    unfold relationChanges
    cases newType.getRelation oldRel.name with
    | none => simp
    | some newRel => simp [eq_comm]
  rw [detectBreakingChanges, List.flatMap_eq_nil_iff]
  refine forall₂_congr fun oldType _ => ?_
  unfold typeChanges
  cases new.getType oldType.name with
  | none => simp
  | some newType => simp [List.flatMap_eq_nil_iff, hrel]

end Kraalzibar
