import Kraalzibar.Foundations.Threads
import Kraalzibar.Server.Transparency

/-!
# Schema writes among concurrent requests

Every call a request awaits is one step, so checks, schema loads and schema writes
of a tenant interleave.  What a schema write compares with, and what a request puts
into a cache, it read some steps before: a log of all calls says what has been stored
since.

* `stored`, `ReadAt`, `StoredSince` — the stored schema along a log;
* `Fresh`, `Overtaken` — a cache that is filled by a read and a later insert, and
  emptied by a schema write after it has stored its text;
* `SchemaOp`, `races` — the requests and their interleavings;
* `unforced_writes_keep_schema` — while each schema write replaces the schema it has
  read; `broken_by_unforced_write` is a run in which one does not.
-/

namespace Kraalzibar

open Foundations

/-! ## The stored schema along a log -/

/-- The text that a call stores. -/
def ServiceCall.storedText : ServiceCall → Option String
  | .writeSchema _ definition => some definition
  | _ => none

namespace SchemaRaces

/-- The stored schema after the calls of a log. -/
def stored (initial : Option String) (log : Log ServiceCall) : Option String :=
  log.foldl (fun text call => call.2.storedText.or text) initial

variable {tenantId : TenantId} {initial : Option String} {finish : ServiceCall}
variable {log later origin : Log ServiceCall} {i w : ℕ} {text : Option String}

theorem stored_concat (call : ℕ × ServiceCall) :
    stored initial (log ++ [call]) = call.2.storedText.or (stored initial log) := by
  simp [stored]

/-- What is stored after a schema write, some schema write has stored. -/
theorem exists_stored (initial : Option String) {definition : String}
    (h : (w, .writeSchema tenantId definition) ∈ log) :
    ∃ text, stored initial log = some text ∧
      ∃ call ∈ log, call.2.storedText = some text := by
  induction log using List.reverseRecOn with
  | nil => cases h
  | append_singleton log call ih =>
      rw [stored_concat]
      cases hcall : call.2.storedText with
      | some text => exact ⟨text, rfl, call, by simp, hcall⟩
      | none =>
          have hlog : (w, .writeSchema tenantId definition) ∈ log := by
            obtain hlog | hlast := List.mem_append.mp h
            · exact hlog
            · rw [List.mem_singleton] at hlast
              rw [← hlast] at hcall
              cases hcall
          obtain ⟨text, htext, other, hother, hstored⟩ := ih hlog
          exact ⟨text, htext, other, List.mem_append_left _ hother, hstored⟩

/-- Thread `i` read the schema when it was `text`. -/
def ReadAt (tenantId : TenantId) (initial : Option String) (log : Log ServiceCall) (i : ℕ)
    (text : Option String) : Prop :=
  ∃ before after, log = before ++ (i, .readSchema tenantId) :: after ∧
    stored initial before = text

theorem ReadAt.mono (hlog : log <+: later) (h : ReadAt tenantId initial log i text) :
    ReadAt tenantId initial later i text := by
  obtain ⟨before, after, rfl, htext⟩ := h
  obtain ⟨more, rfl⟩ := hlog
  exact ⟨before, after ++ more, by simp, htext⟩

theorem readAt_concat :
    ReadAt tenantId initial (log ++ [(i, .readSchema tenantId)]) i (stored initial log) :=
  ⟨log, [], rfl, rfl⟩

/-- Since `i` read the schema, a schema write has stored its text and then made the
call `finish`. -/
def Overtaken (tenantId : TenantId) (finish : ServiceCall) (log : Log ServiceCall) (i : ℕ) :
    Prop :=
  ∃ call ∈ log, call.2.storedText.isSome ∧
    [(i, .readSchema tenantId), call, (call.1, finish)].Sublist log

instance : Decidable (Overtaken tenantId finish log i) :=
  inferInstanceAs (Decidable (∃ call ∈ log, _ ∧ _))

/-- `text` was stored at a moment since which no schema write has both stored its text
and made the call `finish`. -/
def Fresh (initial : Option String) (finish : ServiceCall) (log : Log ServiceCall)
    (text : Option String) : Prop :=
  ∃ before after, log = before ++ after ∧ stored initial before = text ∧
    ∀ call : ℕ × ServiceCall, call.2.storedText.isSome →
      ¬ [call, (call.1, finish)].Sublist after

/-- `definition` is what `w` stored as `own`, or was stored after it. -/
def StoredSince (tenantId : TenantId) (initial : Option String) (log : Log ServiceCall)
    (w : ℕ) (own definition : String) : Prop :=
  ∃ before after, log = before ++ after ∧ (w, .writeSchema tenantId own) ∈ before ∧
    stored initial before = some definition

theorem StoredSince.mono {own definition : String} (hlog : log <+: later)
    (h : StoredSince tenantId initial log w own definition) :
    StoredSince tenantId initial later w own definition := by
  obtain ⟨before, after, rfl, hw, hstored⟩ := h
  obtain ⟨more, rfl⟩ := hlog
  exact ⟨before, after ++ more, by simp, hw, hstored⟩

/-- A text stored since a schema write was stored by some schema write. -/
theorem StoredSince.exists_call {own definition : String}
    (h : StoredSince tenantId initial log w own definition) :
    ∃ call ∈ log, call.2.storedText = some definition := by
  obtain ⟨before, after, rfl, hw, hstored⟩ := h
  obtain ⟨text, htext, call, hcall, hcallText⟩ := exists_stored initial hw
  obtain rfl := Option.some.inj (htext.symm.trans hstored)
  exact ⟨call, List.mem_append_left _ hcall, hcallText⟩

theorem StoredSince.eq_own {own definition : String}
    (h : StoredSince tenantId initial log w own definition)
    (honly : ∀ call ∈ log, call.2.storedText = none ∨ call.2.storedText = some own) :
    definition = own := by
  obtain ⟨call, hcall, htext⟩ := h.exists_call
  obtain hnone | hown := honly call hcall
  · cases htext.symm.trans hnone
  · exact Option.some.inj (htext.symm.trans hown)

/-- The stored text is fresh. -/
theorem fresh_stored : Fresh initial finish log (stored initial log) := by
  refine ⟨log, [], (List.append_nil log).symm, rfl, ?_⟩
  intro call _ hsub
  cases hsub

/-- A fresh text stays fresh until the next `finish`. -/
theorem Fresh.concat {call : ServiceCall} (hcall : call ≠ finish)
    (h : Fresh initial finish log text) :
    Fresh initial finish (log ++ [(i, call)]) text := by
  obtain ⟨before, after, rfl, hstored, hafter⟩ := h
  refine ⟨before, after ++ [(i, call)], List.append_assoc .., hstored, ?_⟩
  intro write hwrite hsub
  refine hafter write hwrite ?_
  obtain ⟨front, back, hparts, hfront, hback⟩ := List.sublist_append_iff.mp hsub
  -- the last of the pair is `finish`, so the new call is not part of it
  cases back using List.reverseRecOn with
  | nil =>
      rw [List.append_nil] at hparts
      exact hparts ▸ hfront
  | append_singleton back last =>
      have hlast : last = (write.1, finish) := by
        have heq := congrArg List.getLast? hparts
        simpa [← List.append_assoc] using heq.symm
      have hmem : last ∈ [(i, call)] := hback.mem (by simp)
      rw [List.mem_singleton, hlast] at hmem
      exact absurd (congrArg Prod.snd hmem).symm hcall

/-- **An insert that is not overtaken inserts something fresh.** -/
theorem ReadAt.fresh (h : ReadAt tenantId initial log i text)
    (hsafe : ¬ Overtaken tenantId finish log i) : Fresh initial finish log text := by
  obtain ⟨before, after, rfl, hstored⟩ := h
  refine ⟨before, _, rfl, hstored, ?_⟩
  intro write hwrite hsub
  have hafter : [write, (write.1, finish)].Sublist after := by
    obtain hsub | ⟨rest, hrest, -⟩ := List.sublist_cons_iff.mp hsub
    · exact hsub
    · rw [(List.cons.inj hrest).1] at hwrite
      cases hwrite
  refine hsafe ⟨write, ?_, hwrite, ?_⟩
  · exact List.mem_append_right _ (hsub.mem (by simp))
  · exact (hafter.cons_cons _).trans (List.sublist_append_right _ _)

/-- For every schema write that had finished in `origin`, `text` is what it stored or a
later schema. -/
def Follows (tenantId : TenantId) (initial : Option String) (finish : ServiceCall)
    (origin log : Log ServiceCall) (text : Option String) : Prop :=
  ∀ w own, [(w, .writeSchema tenantId own), (w, finish)].Sublist origin →
    ∃ definition, text = some definition ∧
      StoredSince tenantId initial log w own definition

theorem Follows.mono (hlog : log <+: later)
    (h : Follows tenantId initial finish origin log text) :
    Follows tenantId initial finish origin later text := by
  intro w own hw
  obtain ⟨definition, htext, hsince⟩ := h w own hw
  exact ⟨definition, htext, hsince.mono hlog⟩

/-- **A fresh text is no older** than a schema write that had finished before. -/
theorem Fresh.follows (horigin : origin <+: log) (h : Fresh initial finish log text) :
    Follows tenantId initial finish origin log text := by
  intro w own hw
  obtain ⟨before, after, rfl, rfl, hafter⟩ := h
  have hlog := hw.trans horigin.sublist
  obtain ⟨front, back, hparts, hfront, hback⟩ := List.sublist_append_iff.mp hlog
  cases front with
  | nil =>
      rw [List.nil_append] at hparts
      exact absurd (hparts ▸ hback) (hafter (w, .writeSchema tenantId own) rfl)
  | cons first front =>
      obtain rfl := (List.cons.inj hparts).1
      have hmem := hfront.mem (List.mem_cons_self ..)
      obtain ⟨definition, hstored, -⟩ := exists_stored initial hmem
      exact ⟨definition, hstored, before, after, rfl, hmem, hstored⟩

theorem follows_stored (horigin : origin <+: log) :
    Follows tenantId initial finish origin log (stored initial log) :=
  fresh_stored.follows horigin

end SchemaRaces

/-! ## The requests -/

/-- The requests that read or write the schema of a tenant. -/
inductive SchemaOp where
  | loadSchema
  | checkPermission (input : CheckPermissionInput)
  | writeSchema (definition : String) (force : Bool)
deriving DecidableEq

abbrev SchemaOp.Output : SchemaOp → Type
  | .loadSchema => Schema
  | .checkPermission _ => CheckPermissionOutput
  | .writeSchema _ _ => WriteSchemaOutput

abbrev SchemaOp.Result (op : SchemaOp) : Type :=
  Except ApiError op.Output

/-- A loader that returns the schema stored at that moment. -/
def loadStored (tenantId : TenantId) : ServiceProgram Schema := do
  let schemaText ← storeReadSchema tenantId
  ofExcept (CachedService.parseText schemaText)

/-- Schema loads and schema writes as they are, and checks with an ideal loader. -/
def SchemaOp.program (config : ServiceConfig) (tenantId : TenantId) :
    ∀ op : SchemaOp, ServiceProgram op.Output
  | .loadSchema => CachedService.loadSchemaCached tenantId
  | .checkPermission input =>
      CachedService.checkPermissionWith config (loadStored tenantId) tenantId input
  | .writeSchema definition force =>
      CachedService.writeSchema config tenantId definition force

abbrev SchemaPool :=
  Pool ServiceState SchemaOp ServiceCall ServiceCall.Reply SchemaOp.Result

/-- All interleavings of the requests of one tenant that `starts` and `allows` admit. -/
def races (config : ServiceConfig) (tenantId : TenantId) (starts : SchemaOp → Prop)
    (allows : Log ServiceCall → ℕ → ServiceCall → Prop) :
    System ServiceState SchemaOp ServiceCall ServiceCall.Reply SchemaOp.Result :=
  { handle := ServiceState.handle true
    env := ServiceState.Evicts
    program := fun op => (op.program config tenantId).run
    starts
    allows }

instance : ∀ op : SchemaOp, DecidableEq op.Result
  | .loadSchema => inferInstanceAs (DecidableEq (Except ApiError Schema))
  | .checkPermission _ =>
      inferInstanceAs (DecidableEq (Except ApiError CheckPermissionOutput))
  | .writeSchema _ _ => inferInstanceAs (DecidableEq (Except ApiError WriteSchemaOutput))

namespace SchemaRaces

variable {config : ServiceConfig} {tenantId : TenantId} {store : InnerState}
variable {log origin : Log ServiceCall} {i : ℕ} {s : ServiceState} {c : ServiceCall}

/-! ### The store -/

/-- The tenant's store is `store` with the schema that was stored last. -/
def StoreAt (tenantId : TenantId) (store : InnerState) (log : Log ServiceCall)
    (s : ServiceState) : Prop :=
  s.stores tenantId = { store with schema := stored store.schema log }

/-- The calls these requests make. -/
def MayCall (tenantId : TenantId) : ServiceCall → Prop
  | .write _ _ => False
  | .writeSchema other _ => other = tenantId
  | .schemaInvalidate other => other = tenantId
  | _ => True

theorem StoreAt.step (h : StoreAt tenantId store log s) (hc : MayCall tenantId c) :
    StoreAt tenantId store (log ++ [(i, c)]) (ServiceState.handle true s c).2 := by
  unfold StoreAt at h ⊢
  rw [stored_concat]
  cases c with
  | write _ _ => cases hc
  | writeSchema other definition =>
      obtain rfl : other = tenantId := hc
      show Function.update s.stores other _ other = _
      rw [Function.update_self, h]
      rfl
  | _ => exact h

theorem StoreAt.evict {t : ServiceState} (h : StoreAt tenantId store log s)
    (ht : s.Evicts t) : StoreAt tenantId store log t := by
  unfold StoreAt
  rw [ht.stores]
  exact h

/-- The four calls of a schema write. -/
theorem mayCall_of_mem {definition : String}
    (hc : c ∈ [.readSchema tenantId, .writeSchema tenantId definition,
      .schemaInvalidate tenantId, .checkInvalidateAll]) : MayCall tenantId c := by
  simp only [List.mem_cons, List.not_mem_nil, or_false] at hc
  rcases hc with rfl | rfl | rfl | rfl
  · trivial
  · rfl
  · rfl
  · trivial

/-- A check under another stored schema: no query's answer depends on it. -/
theorem checkResult_schema (text : Option String) (input : CheckPermissionInput) :
    Operation.checkResult config { store with schema := text } input = (do
      let snapshot ← store.answers (AuthzService.resolveSnapshot input.consistency)
      let schema ← CachedService.parseText text
      let result ← store.answers (CachedService.evaluate config schema input snapshot)
      return { allowed := result.allowed, snapshot }) :=
  rfl

/-! ### Reads and writes of the schema -/

section

variable {starts : SchemaOp → Prop} {allows : Log ServiceCall → ℕ → ServiceCall → Prop}
variable {inv : Log ServiceCall → ServiceState → Prop}

/-- A read of the schema returns the text stored at that moment. -/
theorem storeReadSchema_safe
    (hstore : ∀ log s, inv log s → StoreAt tenantId store log s)
    (hstep : ∀ log s, inv log s → allows log i (.readSchema tenantId) →
      inv (log ++ [(i, .readSchema tenantId)]) s) :
    Safe (races config tenantId starts allows) inv i
      (fun later r => ∃ before, log <+: before ∧
        later = before ++ [(i, .readSchema tenantId)] ∧
        r = .ok (stored store.schema before)) log
      (storeReadSchema tenantId).run := by
  refine Safe.call ?_
  intro before s hlog hs hallowed
  refine ⟨hstep before s hs hallowed, before, hlog, rfl, ?_⟩
  show (InMemoryStore.schemaStore.readSchema (s.stores tenantId)).mapError _ = _
  rw [hstore before s hs]
  rfl

/-- A schema loaded from the store was read since the request started, so it follows
every schema write that had finished then. -/
theorem loadStored_safe (finish : ServiceCall) (horigin : origin <+: log)
    (hstore : ∀ log s, inv log s → StoreAt tenantId store log s)
    (hstep : ∀ log s, inv log s → allows log i (.readSchema tenantId) →
      inv (log ++ [(i, .readSchema tenantId)]) s) :
    Safe (races config tenantId starts allows) inv i
      (fun log r => ∃ text, ReadAt tenantId store.schema log i text ∧
        Follows tenantId store.schema finish origin log text ∧
        r = CachedService.parseText text) log (loadStored tenantId).run := by
  refine Safe.andThen (storeReadSchema_safe hstore hstep) ?_ ?_
  · intro later text _ hread
    obtain ⟨before, hbefore, rfl, hread⟩ := hread
    obtain rfl := Except.ok.inj hread
    exact ⟨_, readAt_concat,
      (follows_stored (horigin.trans hbefore)).mono (List.prefix_append _ _), rfl⟩
  · intro later e _ hread
    obtain ⟨before, -, -, hread⟩ := hread
    cases hread

theorem parseStored_eq_ok {text : String} {schema : Schema} :
    parseStored text = .ok schema ↔ parseSchema text = .ok schema := by
  unfold parseStored
  cases parseSchema text with
  | error e => exact ⟨nofun, nofun⟩
  | ok parsed =>
      constructor
      · intro h
        obtain rfl := Except.ok.inj h
        rfl
      · intro h
        obtain rfl := Except.ok.inj h
        rfl

/-- An accepted definition parses. -/
theorem parse_of_accept {definition : String} {schema : Schema}
    (h : CachedService.acceptSchema config definition = .ok schema) :
    parseSchema definition = .ok schema := by
  obtain ⟨parsed, hparse, h⟩ := bind_eq_ok.mp h
  obtain ⟨_, _, h⟩ := bind_eq_ok.mp h
  obtain rfl := Except.ok.inj h
  exact parseStored_eq_ok.mp hparse

/-- `i` accepted `definition` and compared it with the schema it had read. -/
def Compared (config : ServiceConfig) (tenantId : TenantId) (initial : Option String)
    (log : Log ServiceCall) (i : ℕ) (definition : String) (force : Bool) : Prop :=
  ∃ text newSchema overridden, ReadAt tenantId initial log i text ∧
    CachedService.acceptSchema config definition = .ok newSchema ∧
    CachedService.compareStored text newSchema force = .ok overridden

/-- Schema write `i` has stored its text and then emptied both caches. -/
def Finished (tenantId : TenantId) (log : Log ServiceCall) (i : ℕ) (definition : String) :
    Prop :=
  [(i, .writeSchema tenantId definition), (i, .schemaInvalidate tenantId),
    (i, .checkInvalidateAll)].Sublist log

/-- **A schema write** that returns has stored its text and emptied both caches, in
this order.  It keeps what its four calls keep. -/
theorem writeSchema_safe (definition : String) (force : Bool)
    (hstore : ∀ log s, inv log s → StoreAt tenantId store log s)
    (hstep : ∀ log s c, inv log s → allows log i c →
      c ∈ [.readSchema tenantId, .writeSchema tenantId definition,
        .schemaInvalidate tenantId, .checkInvalidateAll] →
      (∀ text, c.storedText = some text →
        Compared config tenantId store.schema log i text force) →
      inv (log ++ [(i, c)]) (ServiceState.handle true s c).2) :
    Safe (races config tenantId starts allows) inv i
      (fun log r => ∀ output, r = .ok output → Finished tenantId log i definition) origin
      (CachedService.writeSchema config tenantId definition force).run := by
  refine Safe.andThen (M := fun _ r => r = CachedService.acceptSchema config definition)
    rfl ?_ ?_
  · intro log newSchema _ hnew
    refine Safe.andThen (storeReadSchema_safe hstore fun log s hs hallowed =>
      hstep log s _ hs hallowed (by simp) nofun) ?_ ?_
    · intro log text _ hread
      obtain ⟨before, -, rfl, hread⟩ := hread
      obtain rfl := Except.ok.inj hread
      refine Safe.andThen (M := fun later r =>
        before ++ [(i, .readSchema tenantId)] <+: later ∧
        r = CachedService.compareStored (stored store.schema before) newSchema force)
        ⟨List.prefix_rfl, rfl⟩ ?_ ?_
      · intro log overridden _ hcompared
        obtain ⟨hlog, hcompared⟩ := hcompared
        refine Safe.call ?_
        intro log₁ s₁ hlog₁ hs₁ hallowed₁
        refine ⟨hstep log₁ s₁ _ hs₁ hallowed₁ (by simp) ?_, ?_⟩
        · intro text htext
          cases htext
          exact ⟨_, newSchema, overridden, readAt_concat.mono (hlog.trans hlog₁),
            hnew.symm, hcompared.symm⟩
        refine Safe.call ?_
        intro log₂ s₂ hlog₂ hs₂ hallowed₂
        refine ⟨hstep log₂ s₂ _ hs₂ hallowed₂ (by simp) nofun, ?_⟩
        refine Safe.call ?_
        intro log₃ s₃ hlog₃ hs₃ hallowed₃
        refine ⟨hstep log₃ s₃ _ hs₃ hallowed₃ (by simp) nofun, ?_⟩
        intro output _
        obtain ⟨more₂, rfl⟩ := hlog₂
        obtain ⟨more₃, rfl⟩ := hlog₃
        simp [Finished]
      · intro log e _ _ output houtput
        cases houtput
    · intro log e _ hread
      obtain ⟨before, -, -, hread⟩ := hread
      cases hread
  · intro log e _ _ output houtput
    cases houtput

end

/-! ### Unforced schema writes -/

/-- Both texts parse, and nothing of `old` is lost in `new`. -/
def Keeps (old new : String) : Prop :=
  ∃ oldSchema newSchema, parseSchema old = .ok oldSchema ∧ parseSchema new = .ok newSchema ∧
    detectBreakingChanges oldSchema newSchema = []

/-- An unforced write that passed its comparison keeps the schema it compared with. -/
theorem Compared.keeps {text : String}
    (h : Compared config tenantId store.schema log i text false) :
    ∃ read, ReadAt tenantId store.schema log i read ∧
      ∀ old, read = some old → Keeps old text := by
  obtain ⟨read, newSchema, overridden, hread, haccept, hcompare⟩ := h
  refine ⟨read, hread, ?_⟩
  intro old hold
  subst hold
  obtain ⟨oldSchema, hparse, hcompare⟩ := bind_eq_ok.mp hcompare
  refine ⟨oldSchema, newSchema, parseStored_eq_ok.mp hparse, parse_of_accept haccept, ?_⟩
  cases hbreaking : detectBreakingChanges oldSchema newSchema with
  | nil => rfl
  | cons change changes =>
      simp only [hbreaking] at hcompare
      cases hcompare

/-- The stored schema, and that no write has broken it. -/
structure NeverBroken (tenantId : TenantId) (store : InnerState) (log : Log ServiceCall)
    (s : ServiceState) : Prop where
  storeAt : StoreAt tenantId store log s
  kept : ∀ before call after text old, log = before ++ call :: after →
    call.2.storedText = some text → stored store.schema before = some old → Keeps old text

theorem NeverBroken.step (h : NeverBroken tenantId store log s) (hc : MayCall tenantId c)
    (hstored : ∀ text old, c.storedText = some text → stored store.schema log = some old →
      Keeps old text) :
    NeverBroken tenantId store (log ++ [(i, c)]) (ServiceState.handle true s c).2 := by
  refine ⟨h.storeAt.step hc, ?_⟩
  intro before call after text old hlog htext hold
  cases after using List.reverseRecOn with
  | nil =>
      obtain ⟨rfl, hcall⟩ := List.append_inj' hlog rfl
      obtain rfl := (List.cons.inj hcall).1
      exact hstored text old htext hold
  | append_singleton after last =>
      rw [← List.cons_append, ← List.append_assoc] at hlog
      obtain ⟨hlog, -⟩ := List.append_inj' hlog rfl
      exact h.kept before call after text old hlog htext hold

theorem NeverBroken.evict {t : ServiceState} (h : NeverBroken tenantId store log s)
    (ht : s.Evicts t) : NeverBroken tenantId store log t where
  storeAt := h.storeAt.evict ht
  kept := h.kept

/-- Interleavings of unforced schema writes in which each stores its text only while the
schema is the one it has read. -/
def writeRaces (config : ServiceConfig) (tenantId : TenantId) (initial : Option String) :
    System ServiceState SchemaOp ServiceCall ServiceCall.Reply SchemaOp.Result :=
  races config tenantId
    (fun op => match op with
      | .writeSchema _ force => force = false
      | _ => False)
    (fun log i c => c.storedText.isSome → ∀ before ∈ log.inits,
      before ++ [(i, .readSchema tenantId)] <+: log →
      stored initial before = stored initial log)

theorem writeRaces_safe (i : ℕ) (op : SchemaOp) (origin : Log ServiceCall)
    (hop : (writeRaces config tenantId store.schema).starts op) :
    Safe (writeRaces config tenantId store.schema) (NeverBroken tenantId store) i
      (fun _ _ => True) origin ((writeRaces config tenantId store.schema).program op) := by
  cases op with
  | loadSchema => cases hop
  | checkPermission input => cases hop
  | writeSchema definition force =>
      obtain rfl : force = false := hop
      refine Safe.imp (writeSchema_safe definition false (fun _ _ hs => hs.storeAt) ?_)
        fun _ _ _ => trivial
      intro log s c hs hallowed hc hcompared
      refine hs.step (mayCall_of_mem hc) ?_
      intro text old htext hold
      obtain ⟨read, ⟨before, after, rfl, hread⟩, hkeeps⟩ := (hcompared text htext).keeps
      have hcurrent : stored store.schema before = stored store.schema
          (before ++ (i, .readSchema tenantId) :: after) := by
        refine hallowed (by rw [htext]; rfl) before ?_ ⟨after, by simp⟩
        exact (List.mem_inits _ _).mpr (List.prefix_append _ _)
      exact hkeeps old (hread.symm.trans (hcurrent.trans hold))

end SchemaRaces

open SchemaRaces

/-- **Unforced writes never break the stored schema** while each replaces the schema it
has read: a stored schema is only replaced by one that keeps its types and relations. -/
theorem unforced_writes_keep_schema (config : ServiceConfig) (tenantId : TenantId)
    (s₀ : ServiceState) {p q : SchemaPool}
    (hp : Pool.Steps (writeRaces config tenantId (s₀.stores tenantId).schema)
      (Pool.init s₀) p)
    (hq : Pool.Steps (writeRaces config tenantId (s₀.stores tenantId).schema) p q)
    {w : ℕ} {new : String} (hcall : q.log = p.log ++ [(w, .writeSchema tenantId new)])
    {old : String} (hold : (p.state.stores tenantId).schema = some old) :
    ∃ oldSchema newSchema, parseSchema old = .ok oldSchema ∧
      parseSchema new = .ok newSchema ∧ detectBreakingChanges oldSchema newSchema = [] := by
  have hok : ∀ {q : SchemaPool},
      Pool.Steps (writeRaces config tenantId (s₀.stores tenantId).schema) (Pool.init s₀) q →
      Pool.Ok (writeRaces config tenantId (s₀.stores tenantId).schema)
        (NeverBroken tenantId (s₀.stores tenantId)) (fun _ _ _ _ _ => True) q := by
    intro q hq
    exact hq.ok writeRaces_safe (fun _ _ _ hs ht => hs.evict ht) (.init ⟨rfl, by simp⟩)
  have hstore := (hok hp).keeps.storeAt
  have hkept := (hok (hp.trans hq)).keeps.kept
  refine hkept p.log (w, .writeSchema tenantId new) [] new old hcall rfl ?_
  rw [← hold, hstore]

/-! ### Two writers -/

instance {config : ServiceConfig} {tenantId : TenantId} {initial : Option String} :
    DecidablePred (writeRaces config tenantId initial).starts
  | .loadSchema => inferInstanceAs (Decidable False)
  | .checkPermission _ => inferInstanceAs (Decidable False)
  | .writeSchema _ force => inferInstanceAs (Decidable (force = false))

instance {config : ServiceConfig} {tenantId : TenantId} {initial : Option String}
    (log : Log ServiceCall) (i : ℕ) (c : ServiceCall) :
    Decidable ((writeRaces config tenantId initial).allows log i c) :=
  inferInstanceAs (Decidable (_ → ∀ before ∈ log.inits, _))

def users : String := "definition user {}"

def groups : String := "definition user {} definition group {}"

def folders : String := "definition user {} definition folder {}"

/-- A service on which one schema is stored. -/
def usersStored : ServiceState :=
  (runSession {} true .new [(acme, .writeSchema users false)]).2

abbrev usersWrites :
    System ServiceState SchemaOp ServiceCall ServiceCall.Reply SchemaOp.Result :=
  writeRaces {} acme (usersStored.stores acme).schema

/-- One writer, up to the step that stores its schema. -/
def groupsCompared : SchemaPool :=
  (Pool.init usersStored).play usersWrites [.start 0 (.writeSchema groups false), .call 0]

theorem unforced_writes_keep_schema_groups :
    ∃ oldSchema newSchema, parseSchema users = .ok oldSchema ∧
      parseSchema groups = .ok newSchema ∧
      detectBreakingChanges oldSchema newSchema = [] := by
  have hp : Pool.Steps usersWrites (Pool.init usersStored) groupsCompared :=
    Pool.play_steps _
  have hq : Pool.Steps usersWrites groupsCompared
      (groupsCompared.play usersWrites [.call 0]) := Pool.play_steps _
  have hcall : (groupsCompared.play usersWrites [.call 0]).log =
      groupsCompared.log ++ [(0, .writeSchema acme groups)] := by decide +kernel
  have hold : (groupsCompared.state.stores acme).schema = some users := by decide +kernel
  exact unforced_writes_keep_schema {} acme usersStored hp hq hcall hold

/-- Both writers have compared with the first schema, and one has replaced it. -/
def bothCompared : SchemaPool :=
  (Pool.init usersStored).play usersWrites.free
    [.start 0 (.writeSchema groups false), .start 1 (.writeSchema folders false),
      .call 0, .call 1, .call 0]

/-- The other replaces the new schema, and removes a type that it has never seen. -/
theorem broken_by_unforced_write :
    ∃ p q : SchemaPool,
      Pool.Steps usersWrites.free (Pool.init usersStored) p ∧
      Pool.Steps usersWrites.free p q ∧
      q.log = p.log ++ [(1, .writeSchema acme folders)] ∧
      (p.state.stores acme).schema = some groups ∧
      ¬ ∃ oldSchema newSchema, parseSchema groups = .ok oldSchema ∧
        parseSchema folders = .ok newSchema ∧
        detectBreakingChanges oldSchema newSchema = [] := by
  have hp : Pool.Steps usersWrites.free (Pool.init usersStored) bothCompared :=
    Pool.play_steps _
  have hq : Pool.Steps usersWrites.free bothCompared
      (bothCompared.play usersWrites.free [.call 1]) := Pool.play_steps _
  have hcall : (bothCompared.play usersWrites.free [.call 1]).log =
      bothCompared.log ++ [(1, .writeSchema acme folders)] := by decide +kernel
  have hold : (bothCompared.state.stores acme).schema = some groups := by decide +kernel
  refine ⟨_, _, hp, hq, hcall, hold, ?_⟩
  intro h
  obtain ⟨oldSchema, newSchema, hold, hnew, hnone⟩ := h
  have hremoved : (do
      let oldSchema ← parseSchema groups
      let newSchema ← parseSchema folders
      return detectBreakingChanges oldSchema newSchema) = .ok [.typeRemoved "group"] := by
    decide +kernel
  rw [hold, hnew] at hremoved
  cases hnone.symm.trans (Except.ok.inj hremoved)

end Kraalzibar
