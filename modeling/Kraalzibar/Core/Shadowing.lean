import Kraalzibar.Core.Populated
import Kraalzibar.Core.Usersets
import Mathlib.Data.Fintype.EquivFin

/-!
# Relations hidden by permissions

`parse_definition` keeps relations and permissions apart, so a type may declare both
under one name, and `evaluate_this` looks the permission up first.

* `relation_reached_iff` — a permission that names a relation finds its tuples just when
  no permission has that name;
* `hidden_relation_denied` — a relation that a permission hides.
-/

namespace Kraalzibar

open Foundations

/-- Some type name is not declared. -/
theorem Schema.exists_undeclared (schema : Schema) : ∃ name, schema.getType name = none := by
  obtain ⟨name, hfresh⟩ := Infinite.exists_notMem_finset
    (schema.types.map TypeDefinition.name).toFinset
  refine ⟨name, List.find?_eq_none.mpr fun td htd => ?_⟩
  rw [List.mem_toFinset] at hfresh
  intro hname
  exact hfresh (List.mem_map.mpr ⟨td, htd, by simpa using hname⟩)

/-- The permission `permission` of the type `typeName` grants everyone who has a tuple
of the relation `relation`, whatever else is stored and however deep rules may nest. -/
def Reaches (schema : Schema) (typeName permission relation : String) : Prop :=
  ∀ (config : EngineConfig) (T : List Tuple) (reader : TupleReader) (request : CheckRequest),
    1 ≤ config.maxDepth → request.objectType = typeName → request.permission = permission →
    Serves reader request.snapshot T →
    ⟨⟨typeName, request.objectId⟩, relation,
      .direct request.subjectType request.subjectId⟩ ∈ T →
    Fallible.eval reader (CheckEngine.check ⟨schema, config⟩ request) = .ok ⟨true⟩

/-- **A relation is reached by its name** just when the type has no permission of that
name: such a permission hides the relation from `this`. -/
theorem relation_reached_iff {text : String} {schema : Schema}
    (hparse : parseSchema text = .ok schema) {typeName permission relation : String}
    (hperm : schema.Declares typeName permission (.this relation))
    (hrel : schema.DeclaresRelation typeName relation) :
    Reaches schema typeName permission relation ↔
      ¬ ∃ rule, schema.Declares typeName relation rule := by
  have hunique := parseSchema_namesUnique hparse
  constructor
  · rintro hreaches ⟨rule, hhidden⟩
    -- one tuple of the relation, whose subject no arrow can follow
    obtain ⟨stranger, hunknown⟩ := schema.exists_undeclared
    obtain ⟨td, pd, htype, hget, -⟩ := hhidden.get hunique
    let stored : Tuple := ⟨⟨typeName, ""⟩, relation, .direct stranger ""⟩
    have hinert : CheckEngine.Inert schema [stored] ⟨typeName, ""⟩ := by
      intro t ht _
      obtain rfl := List.mem_singleton.mp ht
      exact ⟨hunknown, td, pd, htype, hget⟩
    have hserves := listReader_serves [stored] none
    exact @CheckEngine.check_inert ⟨schema, {}⟩ _ _ (parseSchema_populated hparse)
      ⟨typeName, "", permission, stranger, "", none⟩ hserves.readsFrom hinert
      (hreaches {} [stored] _ ⟨typeName, "", permission, stranger, "", none⟩ (by decide)
        rfl rfl hserves (List.mem_singleton_self _))
  · intro hunshadowed config T reader request _ htype hpermission hreader hstored
    subst htype hpermission
    obtain ⟨allowed, hcheck, hleaf⟩ :=
      check_this_iff_leaf hunique config hreader hperm hrel hunshadowed
    rw [hcheck, hleaf.mpr (Or.inl hstored)]

/-! ### Two schemas for documents -/

/-- Viewers are stored, and the permission `permission` names them. -/
def viewedBy (permission : String) : Schema :=
  { types := [
      { name := "doc"
        relations := [⟨"viewer", [⟨"user", none⟩]⟩]
        permissions := [⟨permission, .this "viewer"⟩] }] }

def viewText : String := "definition doc { relation viewer: user permission view = viewer }"

def viewerText : String := "definition doc { relation viewer: user permission viewer = viewer }"

theorem parses_viewText : parseSchema viewText = .ok (viewedBy "view") := by
  decide +kernel

theorem parses_viewerText : parseSchema viewerText = .ok (viewedBy "viewer") := by
  decide +kernel

theorem viewedBy_declares (permission : String) :
    (viewedBy permission).Declares "doc" permission (.this "viewer") ∧
      (viewedBy permission).DeclaresRelation "doc" "viewer" :=
  ⟨⟨_, List.mem_singleton_self _, rfl, _, List.mem_singleton_self _, rfl, rfl⟩,
    ⟨_, List.mem_singleton_self _, rfl, _, List.mem_singleton_self _, rfl⟩⟩

theorem relation_reached_view : Reaches (viewedBy "view") "doc" "view" "viewer" := by
  obtain ⟨hperm, hrel⟩ := viewedBy_declares "view"
  refine (relation_reached_iff parses_viewText hperm hrel).mpr ?_
  rintro ⟨rule, td, htd, -, pd, hpd, hname, -⟩
  obtain rfl := List.mem_singleton.mp htd
  obtain rfl := List.mem_singleton.mp hpd
  exact absurd hname (by decide)

/-- A permission of the relation's name asks for itself, until the depth limit. -/
theorem hidden_relation_denied :
    parseSchema viewerText = .ok (viewedBy "viewer") ∧
    (viewedBy "viewer").Declares "doc" "viewer" (.this "viewer") ∧
    (viewedBy "viewer").DeclaresRelation "doc" "viewer" ∧
    Fallible.eval (listReader [⟨⟨"doc", "readme"⟩, "viewer", .direct "user" "alice"⟩])
      (CheckEngine.check ⟨viewedBy "viewer", {}⟩
        ⟨"doc", "readme", "viewer", "user", "alice", none⟩) =
          .error (.maxDepthExceeded 7) :=
  ⟨parses_viewerText, (viewedBy_declares "viewer").1, (viewedBy_declares "viewer").2,
    by decide +kernel⟩

end Kraalzibar
