import Mathlib.Data.List.Nodup

/-!
# Schemas and rewrite rules

A schema is a list of type definitions.  Each type declares relations, whose
tuples are stored, and permissions, whose rewrite rule is evaluated.  Names are
looked up in declaration order, so a lookup alone would let an earlier
definition hide a later one; `parse_schema` rejects duplicate names, and
`Schema.NamesUnique` states what it guarantees.
-/

namespace Kraalzibar

structure SubjectTypeRef where
  typeName : String
  relation : Option String
deriving DecidableEq

structure RelationDef where
  name : String
  subjectTypes : List SubjectTypeRef
deriving DecidableEq

inductive RewriteRule where
  | this (name : String)
  | union (children : List RewriteRule)
  | intersection (children : List RewriteRule)
  | exclusion (base excluded : RewriteRule)
  | arrow (tuplesetRel computedPerm : String)

structure PermissionDef where
  name : String
  rule : RewriteRule

structure TypeDefinition where
  name : String
  relations : List RelationDef
  permissions : List PermissionDef

structure Schema where
  types : List TypeDefinition

def Schema.getType (schema : Schema) (name : String) : Option TypeDefinition :=
  schema.types.find? (fun t => t.name == name)

def TypeDefinition.getRelation (td : TypeDefinition) (name : String) :
    Option RelationDef :=
  td.relations.find? (fun r => r.name == name)

def TypeDefinition.getPermission (td : TypeDefinition) (name : String) :
    Option PermissionDef :=
  td.permissions.find? (fun p => p.name == name)

/-- Induction over a rule: a statement about an n-ary node may use the
statement about each of its children. -/
@[elab_as_elim, induction_eliminator]
theorem RewriteRule.ind {motive : RewriteRule → Prop}
    (this : ∀ name, motive (.this name))
    (union : ∀ children, (∀ c ∈ children, motive c) → motive (.union children))
    (intersection : ∀ children, (∀ c ∈ children, motive c) →
      motive (.intersection children))
    (exclusion : ∀ base excluded, motive base → motive excluded →
      motive (.exclusion base excluded))
    (arrow : ∀ rel perm, motive (.arrow rel perm)) :
    ∀ rule, motive rule := by
  intro rule
  refine @RewriteRule.rec motive (fun children => ∀ c ∈ children, motive c)
    this union intersection exclusion arrow ?_ ?_ rule
  · intro c hc
    cases hc
  · intro head tail hhead htail c hc
    rcases List.mem_cons.mp hc with rfl | hmem
    · exact hhead
    · exact htail c hmem

mutual

/-- Rules with the same nodes and names. -/
def RewriteRule.same : RewriteRule → RewriteRule → Bool
  | .this a, .this b => a == b
  | .union as, .union bs => sameEach as bs
  | .intersection as, .intersection bs => sameEach as bs
  | .exclusion a b, .exclusion a' b' => same a a' && same b b'
  | .arrow a b, .arrow a' b' => a == a' && b == b'
  | _, _ => false

def RewriteRule.sameEach : List RewriteRule → List RewriteRule → Bool
  | [], [] => true
  | a :: as, b :: bs => same a b && sameEach as bs
  | _, _ => false

end

theorem RewriteRule.same_iff (a b : RewriteRule) : same a b = true ↔ a = b := by
  have heach : ∀ {as bs : List RewriteRule}, (∀ a ∈ as, ∀ b, same a b = true ↔ a = b) →
      (sameEach as bs = true ↔ as = bs) := by
    intro as
    induction as with
    | nil =>
        intro bs _
        cases bs <;> simp [sameEach]
    | cons a as ih =>
        intro bs h
        cases bs with
        | nil => simp [sameEach]
        | cons b bs =>
            have hhead := h a List.mem_cons_self b
            have htail := @ih bs (fun c hc => h c (List.mem_cons_of_mem a hc))
            simp [sameEach, hhead, htail]
  induction a generalizing b with
  | this name => cases b <;> simp [same]
  | union children ih => cases b <;> simp [same, heach ih]
  | intersection children ih => cases b <;> simp [same, heach ih]
  | exclusion base excluded ihBase ihExcluded =>
      cases b <;> simp [same, ihBase, ihExcluded]
  | arrow rel perm => cases b <;> simp [same]

instance : DecidableEq RewriteRule := fun a b => decidable_of_iff _ (RewriteRule.same_iff a b)

deriving instance DecidableEq for PermissionDef, TypeDefinition, Schema

/-- Type names, and the relation and permission names of each type, are
pairwise distinct: `parse_schema` rejects every other definition. -/
structure Schema.NamesUnique (schema : Schema) : Prop where
  types : (schema.types.map TypeDefinition.name).Nodup
  relations : ∀ td ∈ schema.types, (td.relations.map RelationDef.name).Nodup
  permissions : ∀ td ∈ schema.types, (td.permissions.map PermissionDef.name).Nodup

/-- Type `typeName` declares permission `permission` with rule `rule`. -/
def Schema.Declares (schema : Schema) (typeName permission : String)
    (rule : RewriteRule) : Prop :=
  ∃ td ∈ schema.types, td.name = typeName ∧
    ∃ pd ∈ td.permissions, pd.name = permission ∧ pd.rule = rule

/-- Type `typeName` declares relation `relation`. -/
def Schema.DeclaresRelation (schema : Schema) (typeName relation : String) : Prop :=
  ∃ td ∈ schema.types, td.name = typeName ∧ ∃ rd ∈ td.relations, rd.name = relation

/-- What the lookups find is declared. -/
theorem Schema.declares_of_get {schema : Schema} {typeName permission : String}
    {td : TypeDefinition} {pd : PermissionDef}
    (htype : schema.getType typeName = some td)
    (hperm : td.getPermission permission = some pd) :
    schema.Declares typeName permission pd.rule := by
  have ht := List.find?_some htype
  have hp := List.find?_some hperm
  exact ⟨td, List.mem_of_find?_eq_some htype, by simpa using ht,
    pd, List.mem_of_find?_eq_some hperm, by simpa using hp, rfl⟩

/-- In a list with pairwise distinct names, looking up a member's name finds
that member. -/
private theorem find?_name_eq_of_mem {α : Type} {name : α → String} {l : List α}
    (hnodup : (l.map name).Nodup) {a : α} (ha : a ∈ l) :
    l.find? (fun x => name x == name a) = some a := by
  cases hfind : l.find? (fun x => name x == name a) with
  | none =>
      have := List.find?_eq_none.mp hfind a ha
      simp at this
  | some found =>
      have hname : name found = name a := by simpa using List.find?_some hfind
      rw [List.inj_on_of_nodup_map hnodup (List.mem_of_find?_eq_some hfind) ha hname]

/-- With unique names, a declared permission is the one the lookups find. -/
theorem Schema.Declares.get {schema : Schema} (hunique : schema.NamesUnique)
    {typeName permission : String} {rule : RewriteRule}
    (hdecl : schema.Declares typeName permission rule) :
    ∃ td pd, schema.getType typeName = some td ∧
      td.getPermission permission = some pd ∧ pd.rule = rule := by
  obtain ⟨td, htd, rfl, pd, hpd, rfl, rfl⟩ := hdecl
  exact ⟨td, pd, find?_name_eq_of_mem hunique.types htd,
    find?_name_eq_of_mem (hunique.permissions td htd) hpd, rfl⟩

/-- With unique names, a declared relation is found by the lookups. -/
theorem Schema.DeclaresRelation.get {schema : Schema} (hunique : schema.NamesUnique)
    {typeName relation : String} (hdecl : schema.DeclaresRelation typeName relation) :
    ∃ td rd, schema.getType typeName = some td ∧ td.getRelation relation = some rd := by
  obtain ⟨td, htd, rfl, rd, hrd, rfl⟩ := hdecl
  exact ⟨td, rd, find?_name_eq_of_mem hunique.types htd,
    find?_name_eq_of_mem (hunique.relations td htd) hrd⟩

/-- With unique names a permission has one rule. -/
theorem Schema.Declares.unique {schema : Schema} (hunique : schema.NamesUnique)
    {typeName permission : String} {rule rule' : RewriteRule}
    (h : schema.Declares typeName permission rule)
    (h' : schema.Declares typeName permission rule') : rule = rule' := by
  obtain ⟨td, pd, htype, hperm, rfl⟩ := h.get hunique
  obtain ⟨td', pd', htype', hperm', rfl⟩ := h'.get hunique
  rw [htype] at htype'
  cases htype'
  rw [hperm] at hperm'
  cases hperm'
  rfl

end Kraalzibar
