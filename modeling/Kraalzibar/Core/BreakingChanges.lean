import Kraalzibar.Core.Parser
import Kraalzibar.Core.Tuple
import Kraalzibar.Core.Validation

/-!
# Breaking changes and stored tuples

A stored tuple is allowed by a schema that declares its relation and lists its kind of
subject there.  A change is breaking, by its purpose, when it can take that away.

* `Schema.Has`, `Schema.Lists`, `Tuple.AllowedBy` — what a schema says of a tuple;
* `Unbroken` — no breaking change is reported, which is transitive and keeps every
  tuple allowed;
* `subjectTypesChanged_justified_iff` — when a report of changed subject types means
  that one was taken away;
* `reordered_subjects_reported` — a report that does not.
-/

namespace Kraalzibar

/-- The type `typeName` declares the relation `rel`. -/
def Schema.Has (schema : Schema) (typeName : String) (rel : RelationDef) : Prop :=
  ∃ td ∈ schema.types, td.name = typeName ∧ rel ∈ td.relations

/-- The subject type `ref` is listed for a relation. -/
def Schema.Lists (schema : Schema) (typeName relation : String) (ref : SubjectTypeRef) :
    Prop :=
  ∃ rel, schema.Has typeName rel ∧ rel.name = relation ∧ ref ∈ rel.subjectTypes

/-- The subject of a tuple as a schema lists it. -/
def SubjectRef.typeRef (subject : SubjectRef) : SubjectTypeRef :=
  { typeName := subject.subjectType, relation := subject.subjectRelation }

def Tuple.AllowedBy (schema : Schema) (t : Tuple) : Prop :=
  schema.Lists t.object.objectType t.relation t.subject.typeRef

/-- With unique names, a relation of a type is known by its name. -/
theorem Schema.Has.eq {schema : Schema} (hunique : schema.NamesUnique) {typeName : String}
    {rel rel' : RelationDef} (h : schema.Has typeName rel) (h' : schema.Has typeName rel')
    (hname : rel'.name = rel.name) : rel' = rel := by
  obtain ⟨td, htd, rfl, hrel⟩ := h
  obtain ⟨td', htd', htype, hrel'⟩ := h'
  obtain rfl := List.inj_on_of_nodup_map hunique.types htd' htd htype
  exact List.inj_on_of_nodup_map (hunique.relations td' htd) hrel' hrel hname

theorem Schema.has_of_get {schema : Schema} {typeName relation : String}
    {td : TypeDefinition} {rel : RelationDef} (htype : schema.getType typeName = some td)
    (hrel : td.getRelation relation = some rel) :
    schema.Has typeName rel ∧ rel.name = relation := by
  have ht := List.find?_some htype
  have hr := List.find?_some hrel
  exact ⟨⟨td, List.mem_of_find?_eq_some htype, by simpa using ht,
    List.mem_of_find?_eq_some hrel⟩, by simpa using hr⟩

/-- With unique names, the lookups find a relation that a type has. -/
theorem Schema.Has.get {schema : Schema} (hunique : schema.NamesUnique) {typeName : String}
    {rel : RelationDef} (h : schema.Has typeName rel) :
    ∃ td, schema.getType typeName = some td ∧ td.getRelation rel.name = some rel := by
  obtain ⟨td, htd, htype, hrel⟩ := h
  have hdecl : schema.DeclaresRelation typeName rel.name := ⟨td, htd, htype, rel, hrel, rfl⟩
  obtain ⟨td', rel', htype', hget⟩ := hdecl.get hunique
  obtain ⟨hhas, hname⟩ := Schema.has_of_get htype' hget
  obtain rfl := Schema.Has.eq hunique ⟨td, htd, htype, hrel⟩ hhas hname
  exact ⟨td', htype', hget⟩

/-! ## Changes that are not reported -/

/-- The change from `old` to `new` is accepted without force. -/
def Unbroken (old new : Schema) : Prop :=
  detectBreakingChanges old new = []

instance (old new : Schema) : Decidable (Unbroken old new) :=
  inferInstanceAs (Decidable (_ = _))

/-- Every relation is still there, with its list. -/
theorem Unbroken.has {old new : Schema} (h : Unbroken old new) {typeName : String}
    {rel : RelationDef} (hrel : old.Has typeName rel) :
    ∃ newRel, new.Has typeName newRel ∧ newRel.name = rel.name ∧
      newRel.subjectTypes = rel.subjectTypes := by
  obtain ⟨td, htd, rfl, hrel⟩ := hrel
  obtain ⟨newType, htype, hkept⟩ := (detectBreakingChanges_eq_nil_iff old new).mp h td htd
  obtain ⟨newRel, hget, hlist⟩ := hkept rel hrel
  obtain ⟨hhas, hname⟩ := Schema.has_of_get htype hget
  exact ⟨newRel, hhas, hname, hlist⟩

theorem Unbroken.trans {a b c : Schema} (hab : Unbroken a b) (hbc : Unbroken b c) :
    Unbroken a c := by
  refine (detectBreakingChanges_eq_nil_iff a c).mpr fun aType haType => ?_
  obtain ⟨bType, hbType, hab⟩ := (detectBreakingChanges_eq_nil_iff a b).mp hab aType haType
  have hmem : bType ∈ b.types := List.mem_of_find?_eq_some hbType
  have hname : bType.name = aType.name := by simpa using List.find?_some hbType
  obtain ⟨cType, hcType, hbc⟩ := (detectBreakingChanges_eq_nil_iff b c).mp hbc bType hmem
  refine ⟨cType, hname ▸ hcType, fun aRel haRel => ?_⟩
  obtain ⟨bRel, hbRel, hlist⟩ := hab aRel haRel
  have hmem : bRel ∈ bType.relations := List.mem_of_find?_eq_some hbRel
  have hname : bRel.name = aRel.name := by simpa using List.find?_some hbRel
  obtain ⟨cRel, hcRel, hlist'⟩ := hbc bRel hmem
  exact ⟨cRel, hname ▸ hcRel, hlist'.trans hlist⟩

/-- Any chain of changes without a report is one without a report. -/
theorem Unbroken.of_chain {old new : Schema} (h : Relation.TransGen Unbroken old new) :
    Unbroken old new := by
  induction h with
  | single h => exact h
  | tail _ hlast ih => exact ih.trans hlast

theorem Unbroken.lists {old new : Schema} (h : Unbroken old new)
    {typeName relation : String} {ref : SubjectTypeRef}
    (hlists : old.Lists typeName relation ref) : new.Lists typeName relation ref := by
  obtain ⟨rel, hrel, rfl, hmem⟩ := hlists
  obtain ⟨newRel, hnew, hname, hlist⟩ := h.has hrel
  exact ⟨newRel, hnew, hname, hlist ▸ hmem⟩

/-! ## Reports of changed subject types -/

theorem mem_relationChanges {typeName relation name : String} {newType : TypeDefinition}
    {rel : RelationDef} :
    .subjectTypesChanged typeName relation ∈ relationChanges name newType rel ↔
      name = typeName ∧ rel.name = relation ∧
        ∃ newRel, newType.getRelation relation = some newRel ∧
          rel.subjectTypes ≠ newRel.subjectTypes := by
  unfold relationChanges
  constructor
  · intro h
    split at h
    · simp at h
    · split_ifs at h with hne
      · obtain ⟨rfl, rfl⟩ : typeName = name ∧ relation = rel.name := by simpa using h
        exact ⟨rfl, rfl, _, ‹_›, hne⟩
      · cases h
  · rintro ⟨rfl, rfl, newRel, hget, hne⟩
    rw [hget]
    simp [hne]

theorem mem_detectBreakingChanges {old new : Schema} {typeName relation : String} :
    .subjectTypesChanged typeName relation ∈ detectBreakingChanges old new ↔
      ∃ rel, old.Has typeName rel ∧ rel.name = relation ∧
        ∃ newType newRel, new.getType typeName = some newType ∧
          newType.getRelation relation = some newRel ∧
          rel.subjectTypes ≠ newRel.subjectTypes := by
  rw [detectBreakingChanges, List.mem_flatMap]
  constructor
  · rintro ⟨td, htd, h⟩
    unfold typeChanges at h
    split at h
    · simp at h
    · obtain ⟨rel, hrel, h⟩ := List.mem_flatMap.mp h
      obtain ⟨rfl, rfl, newRel, hget, hne⟩ := mem_relationChanges.mp h
      exact ⟨rel, ⟨td, htd, rfl, hrel⟩, rfl, _, newRel, ‹_›, hget, hne⟩
  · rintro ⟨rel, ⟨td, htd, rfl, hrel⟩, rfl, newType, newRel, htype, hget, hne⟩
    refine ⟨td, htd, ?_⟩
    rw [typeChanges, htype]
    exact List.mem_flatMap.mpr ⟨rel, hrel,
      mem_relationChanges.mpr ⟨rfl, rfl, newRel, hget, hne⟩⟩

/-- **Reports of changed subject types are justified** just when no relation keeps all
its subject types while its list changes. -/
theorem subjectTypesChanged_justified_iff {oldText newText : String} {old new : Schema}
    (hold : parseSchema oldText = .ok old) (hnew : parseSchema newText = .ok new) :
    (∀ typeName relation,
      .subjectTypesChanged typeName relation ∈ detectBreakingChanges old new →
        ∃ ref, old.Lists typeName relation ref ∧ ¬ new.Lists typeName relation ref) ↔
    ∀ typeName rel newRel, old.Has typeName rel → new.Has typeName newRel →
      newRel.name = rel.name → rel.subjectTypes ⊆ newRel.subjectTypes →
      newRel.subjectTypes = rel.subjectTypes := by
  have hold := parseSchema_namesUnique hold
  have hnew := parseSchema_namesUnique hnew
  constructor
  · intro hjustified typeName rel newRel hrel hnewRel hname hsub
    by_contra hne
    obtain ⟨newType, htype, hget⟩ := hnewRel.get hnew
    have hreport : .subjectTypesChanged typeName rel.name ∈ detectBreakingChanges old new :=
      mem_detectBreakingChanges.mpr
        ⟨rel, hrel, rfl, newType, newRel, htype, hname ▸ hget, fun h => hne h.symm⟩
    obtain ⟨ref, ⟨rel', hrel', hname', hmem⟩, hgone⟩ := hjustified _ _ hreport
    obtain rfl := hrel.eq hold hrel' hname'
    exact hgone ⟨newRel, hnewRel, hname, hsub hmem⟩
  · intro hkept typeName relation hreport
    obtain ⟨rel, hrel, rfl, newType, newRel, htype, hget, hne⟩ :=
      mem_detectBreakingChanges.mp hreport
    obtain ⟨hnewRel, hname⟩ := Schema.has_of_get htype hget
    have hsub : ¬ rel.subjectTypes ⊆ newRel.subjectTypes :=
      fun hsub => hne (hkept typeName rel newRel hrel hnewRel hname hsub).symm
    obtain ⟨ref, hmem, hgone⟩ : ∃ ref ∈ rel.subjectTypes, ref ∉ newRel.subjectTypes := by
      simpa [List.subset_def] using hsub
    refine ⟨ref, ⟨rel, hrel, rfl, hmem⟩, ?_⟩
    rintro ⟨rel', hrel', hname', hmem'⟩
    obtain rfl := hnewRel.eq hnew hrel' (hname'.trans hname.symm)
    exact hgone hmem'

/-! ### Who may view a document -/

def viewersUser : String := "definition doc { relation viewer: user }"

def viewersUserGroup : String := "definition doc { relation viewer: user | group }"

def viewersGroupUser : String := "definition doc { relation viewer: group | user }"

/-- The schema of these texts. -/
def viewerSchema (subjects : List String) : Schema :=
  { types := [
      { name := "doc"
        relations := [⟨"viewer", subjects.map fun subject => ⟨subject, none⟩⟩]
        permissions := [] }] }

theorem parses_viewersUserGroup :
    parseSchema viewersUserGroup = .ok (viewerSchema ["user", "group"]) := by
  decide +kernel

theorem parses_viewersUser : parseSchema viewersUser = .ok (viewerSchema ["user"]) := by
  decide +kernel

theorem parses_viewersGroupUser :
    parseSchema viewersGroupUser = .ok (viewerSchema ["group", "user"]) := by
  decide +kernel

/-- Taking the groups away is a justified report. -/
theorem subjectTypesChanged_justified_group :
    ∃ ref, (viewerSchema ["user", "group"]).Lists "doc" "viewer" ref ∧
      ¬ (viewerSchema ["user"]).Lists "doc" "viewer" ref := by
  refine (subjectTypesChanged_justified_iff parses_viewersUserGroup
    parses_viewersUser).mpr ?_ "doc" "viewer" (by decide)
  intro typeName rel newRel hrel hnewRel hname hsub
  obtain ⟨td, htd, -, hrel⟩ := hrel
  obtain ⟨newTd, hnewTd, -, hnewRel⟩ := hnewRel
  obtain rfl := List.mem_singleton.mp htd
  obtain rfl := List.mem_singleton.mp hnewTd
  obtain rfl := List.mem_singleton.mp hrel
  obtain rfl := List.mem_singleton.mp hnewRel
  exact absurd hsub (by decide)

/-- The same two subject types in the other order are reported. -/
theorem reordered_subjects_reported :
    parseSchema viewersUserGroup = .ok (viewerSchema ["user", "group"]) ∧
    parseSchema viewersGroupUser = .ok (viewerSchema ["group", "user"]) ∧
    .subjectTypesChanged "doc" "viewer" ∈
      detectBreakingChanges (viewerSchema ["user", "group"])
        (viewerSchema ["group", "user"]) ∧
    ¬ ∃ ref, (viewerSchema ["user", "group"]).Lists "doc" "viewer" ref ∧
      ¬ (viewerSchema ["group", "user"]).Lists "doc" "viewer" ref := by
  refine ⟨parses_viewersUserGroup, parses_viewersGroupUser, by decide, ?_⟩
  rintro ⟨ref, ⟨rel, ⟨td, htd, -, hrel⟩, -, hmem⟩, hgone⟩
  obtain rfl := List.mem_singleton.mp htd
  obtain rfl := List.mem_singleton.mp hrel
  refine hgone ⟨_, ⟨_, List.mem_singleton_self _, rfl, List.mem_singleton_self _⟩, rfl, ?_⟩
  have hperm : ∀ ref ∈ [SubjectTypeRef.mk "user" none, ⟨"group", none⟩],
      ref ∈ [SubjectTypeRef.mk "group" none, ⟨"user", none⟩] := by decide
  exact hperm ref hmem

end Kraalzibar
