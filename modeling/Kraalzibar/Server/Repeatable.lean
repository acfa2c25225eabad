import Kraalzibar.Core.SchemaGrowth
import Kraalzibar.Server.Decisions

/-!
# One token, one answer

A token names one set of relationships for good.  So two checks of one permission that read
at the same token are answered alike, however far apart they are and whatever is written
meanwhile, as long as the schemas that the tenant stores only grow.

* `StoredSchemasGrow` — of any two schemas that were stored, one extends the other;
* `one_token_one_answer` — in every interleaving.
-/

namespace Kraalzibar

open Foundations

/-- Of any two schemas that were stored for the tenant, one extends the other. -/
def StoredSchemasGrow (tenantId : TenantId) (log : Log ServiceCall) : Prop :=
  ∀ text text' schema schema', WasStored tenantId log (some text) →
    WasStored tenantId log (some text') → parseSchema text = .ok schema →
    parseSchema text' = .ok schema' → schema.ExtendedBy schema' ∨ schema'.ExtendedBy schema

theorem storedSchemasGrow_of_text {tenantId : TenantId} {log : Log ServiceCall}
    {definition : String} (h : ∀ before ∈ log.inits,
      ∀ text ∈ (storeAlong tenantId before).schema, text = definition) :
    StoredSchemasGrow tenantId log := by
  have hstored : ∀ {text}, WasStored tenantId log (some text) → text = definition := by
    rintro text ⟨before, hbefore, htext⟩
    exact h before ((List.mem_inits _ _).mpr hbefore) text htext
  intro text text' schema schema' htext htext' hparse hparse'
  obtain rfl := hstored htext
  obtain rfl := hstored htext'
  obtain rfl := Except.ok.inj (hparse.symm.trans hparse')
  exact Or.inl (.refl _)

/-- **One token, one answer.**  In every interleaving, two checks of one permission for one
subject that read at the same token and answer, give the same answer, whatever was written
between them, if the schemas stored for the tenant only grow. -/
theorem one_token_one_answer (config : ServiceConfig) {p : ServicePool}
    (hp : Pool.Steps (operations config) (Pool.init .new) p)
    (hcount : p.log.length < 2 ^ 64 - 1) {i j : ℕ} {tenantId : TenantId}
    {input : CheckPermissionInput} {consistency : Consistency}
    {output output' : CheckPermissionOutput}
    (hi : p.returned i = some ⟨(tenantId, .checkPermission input), .ok output⟩)
    (hj : p.returned j =
      some ⟨(tenantId, .checkPermission { input with consistency }), .ok output'⟩)
    (hpinned : input.consistency ≠ .minimizeLatency)
    (hpinned' : consistency ≠ .minimizeLatency) (hsame : output'.snapshot = output.snapshot)
    (hgrow : StoredSchemasGrow tenantId p.log) : output'.allowed = output.allowed := by
  have hshort : Short p.log := hcount
  obtain ⟨s, text, schema, hs, -, hstored, hparse, heval⟩ :=
    pinned_check_at_token hp hshort hi hpinned
  obtain ⟨s', text', schema', hs', -, hstored', hparse', heval'⟩ :=
    pinned_check_at_token hp hshort hj hpinned'
  obtain rfl : s' = s := Option.some.inj (hs'.symm.trans (hsame.trans hs))
  let visible := (storeAlong tenantId p.log).visible s'
  have hanswer := heval (listReader visible) fun _ _ => rfl
  have hanswer' := heval' (listReader visible) fun _ _ => rfl
  rcases hgrow text text' schema schema' hstored hstored' hparse hparse' with hold | hnew
  · have hkept := CheckEngine.check_extended hold _ _ hanswer
    exact congrArg CheckResult.allowed (Except.ok.inj (hanswer'.symm.trans hkept))
  · have hkept := CheckEngine.check_extended hnew _ _ hanswer'
    exact congrArg CheckResult.allowed (Except.ok.inj (hkept.symm.trans hanswer))

/-! ### A check long after -/

/-- Alice views the document and it is taken back; she is asked for as of before. -/
def askedAgain : ServicePool :=
  revokedMeanwhile.play (operations {})
    [.start 4 (acme, .checkPermission { aliceInput with consistency := .atExactSnapshot 1 }),
      .call 4, .call 4, .call 4, .call 4, .call 4, .call 4, .call 4, .call 4]

theorem askedAgain_run :
    askedAgain.answered 2 acme aliceInput (.ok ⟨true, some 1⟩) = true ∧
      askedAgain.answered 4 acme { aliceInput with consistency := .atExactSnapshot 1 }
        (.ok ⟨true, some 1⟩) = true ∧
      askedAgain.log.length < 2 ^ 64 - 1 ∧
      ∀ before ∈ askedAgain.log.inits, ∀ text ∈ (storeAlong acme before).schema,
        text = viewersView := by
  decide +kernel

theorem one_token_one_answer_again :
    ∃ output : CheckPermissionOutput,
      askedAgain.returned 4 = some ⟨(acme, .checkPermission
        { aliceInput with consistency := .atExactSnapshot 1 }), .ok output⟩ ∧
      output.allowed = true := by
  have hp : Pool.Steps (operations {}) (Pool.init .new) askedAgain :=
    (aliceViews_steps.trans revokedMeanwhile_steps).trans (Pool.play_steps _)
  obtain ⟨hfirst, hagain, hcount, htexts⟩ := askedAgain_run
  have hreturned := ServicePool.returned_of_answered hagain
  exact ⟨_, hreturned, one_token_one_answer {} hp hcount
    (ServicePool.returned_of_answered hfirst) hreturned nofun nofun rfl
    (storedSchemasGrow_of_text htexts)⟩

end Kraalzibar
