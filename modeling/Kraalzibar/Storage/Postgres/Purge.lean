import Kraalzibar.Foundations.Cell
import Kraalzibar.Storage.Postgres.Store

/-!
# Purging a tenant while others write

`purge_relationships` deletes all rows and then restarts the sequence, by two statements
of their own.  A write draws its token at once, and its rows are there for others when
it commits.  Here any number of purges and writes interleave.  Tokens are drawn again
after a restart, so a write is known by a number of its own.

* `Tenant`, `Action` — what the connections share, and the statements they run on it;
* `Readable` — what a purge may not break: every active tuple is read without a token;
* `Wf.effect` — the step lemma of the invariant;
* `readable_of_quiet` — the runs in which purges do no harm;
* `purge_loses_write` — a write between the two statements.
-/

namespace Kraalzibar.Postgres.Purge

open Foundations

/-- One `write`, with the statements it has still to execute. -/
structure Transaction where
  status : Status := .unused
  txId : Nat := 0
  call : WriteCall := ⟨[], []⟩
  deletes : List TupleFilter := []
  writes : List TupleWrite := []

namespace Transaction

def start (call : WriteCall) (txId : Nat) : Transaction :=
  { status := .running, txId, call, deletes := call.deletes, writes := call.writes }

/-- The next `UPDATE` is done. -/
def deleted (w : Transaction) : Transaction :=
  { w with deletes := w.deletes.tail }

/-- The next `INSERT` is done. -/
def inserted (w : Transaction) : Transaction :=
  { w with writes := w.writes.tail }

def finish (w : Transaction) (status : Status) : Transaction :=
  { w with status }

end Transaction

/-- A row, the write that inserted it and the last one that stamped it. -/
structure HeapRow where
  row : Row
  inserter : Nat
  stamper : Option Nat := none

def HeapRow.stamp (h : HeapRow) (k txId : Nat) : HeapRow :=
  { h with row := { h.row with deletedTxId := txId }, stamper := some k }

/-- The schema of one tenant as its connections share it. -/
structure Tenant where
  seq : Sequence := {}
  heap : List HeapRow := []
  write : Nat → Transaction := fun _ => {}
  /-- How many purges are between their two statements. -/
  restarting : Nat := 0

inductive Action where
  | begin (k : Nat) (call : WriteCall)
  | delete (k : Nat) (filter : TupleFilter)
  | insert (k : Nat) (write : TupleWrite)
  | commit (k : Nat)
  | rollback (k : Nat)
  /-- `DELETE FROM relation_tuples` -/
  | deleteAll
  /-- `ALTER SEQUENCE tx_id_seq RESTART WITH 1` -/
  | restart

namespace Tenant

def Running (c : Tenant) (k : Nat) : Prop :=
  (c.write k).status = .running

instance (c : Tenant) (k : Nat) : Decidable (c.Running k) :=
  inferInstanceAs (Decidable (_ = _))

/-- What write `k` did counts in a snapshot of `own`, or in one taken outside any
write when `own` is `none`. -/
def counts (c : Tenant) (own : Option Nat) (k : Nat) : Bool :=
  decide ((c.write k).status = .committed) || decide (own = some k)

/-- The row as a snapshot shows it: a stamp that does not count is not there. -/
def seen (c : Tenant) (own : Option Nat) (h : HeapRow) : Option Row :=
  if c.counts own h.inserter then
    some (if h.stamper.any (c.counts own) then h.row
      else { h.row with deletedTxId := ACTIVE_TX_ID })
  else none

def snapshotRows (c : Tenant) (own : Option Nat) : List Row :=
  c.heap.filterMap (c.seen own)

/-- The `UPDATE` of write `k` selects the row. -/
def selects (c : Tenant) (k : Nat) (filter : TupleFilter) (h : HeapRow) : Bool :=
  (c.seen (some k) h).any (deleteSelects filter (c.write k).txId)

/-- Another write than `k` holds what write `j` did. -/
def Held (c : Tenant) (k j : Nat) : Prop :=
  c.Running j ∧ j ≠ k

instance (c : Tenant) (k j : Nat) : Decidable (c.Held k j) :=
  inferInstanceAs (Decidable (_ ∧ _))

/-- The statement can run, waits for nothing, and violates no constraint. -/
def Enabled (c : Tenant) : Action → Prop
  | .begin k call =>
      (c.write k).status = .unused ∧ call.accepted = true ∧
        c.seq.currentTxId < ACTIVE_TX_ID
  | .delete k filter =>
      c.Running k ∧ (c.write k).deletes.head? = some filter ∧
        ∀ h ∈ c.heap, c.selects k filter h = true →
          (∀ j ∈ h.stamper, ¬ c.Held k j) ∧
          (h.stamp k (c.write k).txId).row.key ∉ (c.snapshotRows (some k)).map Row.key
  | .insert k write =>
      c.Running k ∧ (c.write k).deletes = [] ∧ (c.write k).writes.head? = some write ∧
        ∀ h ∈ c.heap, h.row.toTuple = write.toTuple →
          ¬ c.Held k h.inserter ∧ ∀ j ∈ h.stamper, ¬ c.Held k j
  | .commit k => c.Running k ∧ (c.write k).deletes = [] ∧ (c.write k).writes = []
  | .rollback k => c.Running k
  | .deleteAll =>
      ∀ h ∈ c.heap, c.counts none h.inserter = true → ∀ j ∈ h.stamper, ¬ c.Running j
  | .restart => 0 < c.restarting

instance (c : Tenant) (a : Action) : Decidable (c.Enabled a) :=
  match a with
  | .begin _ _ => inferInstanceAs (Decidable (_ ∧ _ ∧ _))
  | .delete k filter =>
      inferInstanceAs (Decidable (c.Running k ∧ _ ∧
        ∀ h ∈ c.heap, c.selects k filter h = true → (∀ j ∈ h.stamper, ¬ c.Held k j) ∧ _ ∉ _))
  | .insert k _ =>
      inferInstanceAs (Decidable (_ ∧ _ ∧ _ ∧ ∀ h ∈ c.heap, _ = _ →
        ¬ c.Held k h.inserter ∧ ∀ j ∈ h.stamper, ¬ c.Held k j))
  | .commit _ => inferInstanceAs (Decidable (_ ∧ _ ∧ _))
  | .rollback _ => inferInstanceAs (Decidable (Running _ _))
  | .deleteAll =>
      inferInstanceAs (Decidable (∀ h ∈ c.heap, c.counts none h.inserter = true →
        ∀ j ∈ h.stamper, ¬ c.Running j))
  | .restart => inferInstanceAs (Decidable (_ < _))

/-- The heap is `heap` and write `k` is `w`. -/
def put (c : Tenant) (heap : List HeapRow) (k : Nat) (w : Transaction) : Tenant :=
  { c with heap := heap, write := Function.update c.write k w }

def effect (c : Tenant) : Action → Tenant
  | .begin k call =>
      let txId := c.seq.nextval.1
      let c := { c with seq := c.seq.nextval.2 }
      -- `next_tx_id` fails on the sentinel, and the transaction with it
      if txId = ACTIVE_TX_ID then c.put c.heap k { status := .aborted }
      else c.put c.heap k (.start call txId)
  | .delete k filter =>
      c.put (c.heap.map fun h =>
        if c.selects k filter h then h.stamp k (c.write k).txId else h) k (c.write k).deleted
  | .insert k write =>
      let row := Row.ofWrite write (c.write k).txId
      c.put (if row.key ∈ (c.snapshotRows (some k)).map Row.key then c.heap
        else c.heap ++ [{ row, inserter := k }]) k (c.write k).inserted
  | .commit k => c.put c.heap k ((c.write k).finish .committed)
  | .rollback k => c.put c.heap k ((c.write k).finish .aborted)
  | .deleteAll =>
      { c with
        heap := c.heap.filter fun h => !c.counts none h.inserter
        restarting := c.restarting + 1 }
  | .restart => { c with seq := {}, restarting := c.restarting - 1 }

def after (c : Tenant) (actions : List Action) : Tenant :=
  actions.foldl effect c

/-- The tables as a connection finds them outside any write. -/
def database (c : Tenant) : Database :=
  { seq := c.seq, rows := c.snapshotRows none }

/-- No write and no purge is under way. -/
def Finished (c : Tenant) : Prop :=
  (∀ k, ¬ c.Running k) ∧ c.restarting = 0

end Tenant

/-- The actions can run one after another, and each meets `ok`. -/
def Tenant.Performs (ok : Tenant → Action → Prop) (c : Tenant) : List Action → Prop
  | [] => True
  | a :: actions => (ok c a ∧ c.Enabled a) ∧ (c.effect a).Performs ok actions

instance Tenant.decidablePerforms (ok : Tenant → Action → Prop)
    [∀ c a, Decidable (ok c a)] (c : Tenant) (actions : List Action) :
    Decidable (c.Performs ok actions) :=
  match actions with
  | [] => .isTrue trivial
  | a :: actions =>
      have := decidablePerforms ok (c.effect a) actions
      inferInstanceAs (Decidable ((ok c a ∧ c.Enabled a) ∧
        (c.effect a).Performs ok actions))

/-- The runs of a new tenant whose steps all meet `ok`. -/
inductive Run (ok : Tenant → Action → Prop) : Tenant → Prop where
  | new : Run ok {}
  | step {c : Tenant} {a : Action} (hrun : Run ok c) (hok : ok c a) (ha : c.Enabled a) :
      Run ok (c.effect a)

theorem Run.after {ok : Tenant → Action → Prop} {c : Tenant} {actions : List Action}
    (hrun : Run ok c) (h : c.Performs ok actions) : Run ok (c.after actions) := by
  induction actions generalizing c with
  | nil => exact hrun
  | cons a actions ih => exact ih (hrun.step h.1.1 h.1.2) h.2

/-- What a purge may not break.  No active row was created by a token that is still to
be drawn, so unless the sequence is used up, a read without a token returns every active
tuple that its filter matches. -/
structure Readable (server : Server) (c : Tenant) : Prop where
  created : ∀ r ∈ c.database.rows, r.deletedTxId = ACTIVE_TX_ID →
    r.createdTxId ≤ c.database.seq.currentTxId
  read : c.database.seq.currentTxId < ACTIVE_TX_ID → ∀ filter, ∃ tuples,
    PostgresStore.read server c.database filter none none = .ok tuples ∧
    ∀ r ∈ c.database.rows, r.deletedTxId = ACTIVE_TX_ID →
      filter.matches r.toTuple = true → r.toTuple ∈ tuples

/-- A restart finds no active row, and no running write that touches a tuple. -/
def Quiet (c : Tenant) : Action → Prop
  | .restart =>
      (∀ r ∈ c.database.rows, r.deletedTxId ≠ ACTIVE_TX_ID) ∧
        ∀ k, c.Running k → (c.write k).call.writes = []
  | _ => True

/-! ## The invariant -/

/-- What the writes are known to have, and `current` is the current token. -/
structure WriteWf (current : Nat) (w : Transaction) : Prop where
  /-- A running write that touches a tuple has drawn its token since the last restart. -/
  drawn : w.status = .running → w.call.writes ≠ [] → w.txId ≤ current
  below : w.status = .running → w.txId < ACTIVE_TX_ID
  pending : w.writes ≠ [] → w.call.writes ≠ []

/-- What the rows are known to have. -/
structure RowWf (current : Nat) (write : Nat → Transaction) (h : HeapRow) : Prop where
  started : (write h.inserter).status ≠ .unused
  touched : (write h.inserter).call.writes ≠ []
  stamped : ∀ j ∈ h.stamper, h.row.deletedTxId < ACTIVE_TX_ID
  /-- A row that others see or may come to see was created by a token that was drawn
  since the last restart. -/
  created : (write h.inserter).status ≠ .aborted →
    (∀ j ∈ h.stamper, (write j).status ≠ .committed) → h.row.createdTxId ≤ current

structure Wf (c : Tenant) : Prop where
  seq : c.seq.Valid
  write : ∀ k, WriteWf c.seq.currentTxId (c.write k)
  row : ∀ h ∈ c.heap, RowWf c.seq.currentTxId c.write h

/-- A later token is current. -/
theorem WriteWf.mono {current current' : Nat} {w : Transaction} (h : WriteWf current w)
    (hle : current ≤ current') : WriteWf current' w where
  drawn := fun hrunning htouches => (h.drawn hrunning htouches).trans hle
  below := h.below
  pending := h.pending

theorem RowWf.mono {current current' : Nat} {write : Nat → Transaction} {h : HeapRow}
    (hrow : RowWf current write h) (hle : current ≤ current') : RowWf current' write h where
  started := hrow.started
  touched := hrow.touched
  stamped := hrow.stamped
  created := fun hlive hstamp => (hrow.created hlive hstamp).trans hle

/-- What is committed stays so when a write that is not committed changes. -/
theorem committed_update {write : Nat → Transaction} {j k : Nat} {w : Transaction}
    (hk : (write k).status ≠ .committed) (hcommitted : (write j).status = .committed) :
    (Function.update write k w j).status = .committed := by
  have hne : j ≠ k := by
    rintro rfl
    exact hk hcommitted
  rwa [Function.update_of_ne hne]

/-- A row keeps what is known of it when write `k` starts, ends or goes on. -/
theorem RowWf.update {current : Nat} {write : Nat → Transaction} {h : HeapRow} {k : Nat}
    {w : Transaction} (hrow : RowWf current write h) (hk : (write k).status ≠ .committed)
    (hinserter : h.inserter = k →
      (write k).status ≠ .aborted ∧ w.status ≠ .unused ∧ w.call = (write k).call) :
    RowWf current (Function.update write k w) h := by
  by_cases heq : h.inserter = k
  · obtain ⟨hlive, hstatus, hcall⟩ := hinserter heq
    have hwrite : Function.update write k w h.inserter = w := by
      rw [heq, Function.update_self]
    refine ⟨?_, ?_, hrow.stamped, fun _ hstamp => hrow.created ?_ ?_⟩
    · rw [hwrite]
      exact hstatus
    · rw [hwrite, hcall, ← heq]
      exact hrow.touched
    · rw [heq]
      exact hlive
    · exact fun j hj hcommitted => hstamp j hj (committed_update hk hcommitted)
  · have hwrite : Function.update write k w h.inserter = write h.inserter :=
      Function.update_of_ne heq ..
    refine ⟨hwrite ▸ hrow.started, hwrite ▸ hrow.touched, hrow.stamped, ?_⟩
    intro hlive hstamp
    exact hrow.created (hwrite ▸ hlive)
      fun j hj hcommitted => hstamp j hj (committed_update hk hcommitted)

theorem Wf.new : Wf {} where
  seq := fun _ => rfl
  write := fun _ => ⟨nofun, nofun, nofun⟩
  row := nofun

section

variable {c : Tenant} {k : Nat}

/-- Outside the writes, what is committed counts. -/
theorem Tenant.counts_none : c.counts none k = true ↔ (c.write k).status = .committed := by
  simp [Tenant.counts]

theorem Tenant.stamped_iff {h : HeapRow} : h.stamper.any (c.counts none) = true ↔
    ∃ j ∈ h.stamper, (c.write j).status = .committed := by
  simp only [Option.any_eq_true, Tenant.counts_none, Option.mem_def]

theorem Tenant.Running.started (h : c.Running k) : (c.write k).status ≠ .unused := by
  rw [show (c.write k).status = .running from h]
  nofun

/-- Write `k` goes on, and the rows are known to be as they should. -/
theorem Wf.put (h : Wf c) (hrunning : c.Running k) {w : Transaction}
    (hcall : w.call = (c.write k).call) (htxId : w.txId = (c.write k).txId)
    (hstatus : w.status ≠ .unused) (hpending : w.writes ⊆ (c.write k).writes)
    {heap : List HeapRow}
    (hheap : ∀ r ∈ heap, RowWf c.seq.currentTxId c.write r) : Wf (c.put heap k w) where
  seq := h.seq
  write := by
    intro j
    show WriteWf _ (Function.update c.write k w j)
    by_cases hj : j = k
    · subst hj
      have hw := h.write j
      rw [Function.update_self]
      refine ⟨?_, ?_, ?_⟩
      · intro _ htouches
        rw [hcall] at htouches
        rw [htxId]
        exact hw.drawn hrunning htouches
      · intro _
        rw [htxId]
        exact hw.below hrunning
      · intro hne
        rw [hcall]
        refine hw.pending fun hnil => hne ?_
        rw [hnil] at hpending
        exact List.subset_nil.mp hpending
    · rw [Function.update_of_ne hj]
      exact h.write j
  row := by
    have hrunning : (c.write k).status = .running := hrunning
    intro r hr
    refine (hheap r hr).update (by rw [hrunning]; nofun) fun _ => ⟨?_, hstatus, hcall⟩
    rw [hrunning]
    nofun

/-- A stamp is put on a row that has not lost its tuple. -/
theorem RowWf.stamp {current txId : Nat} {r : HeapRow} (hrow : RowWf current c.write r)
    (htxId : txId < ACTIVE_TX_ID) (hactive : ∀ j ∈ r.stamper, (c.write j).status ≠ .committed) :
    RowWf current c.write (r.stamp k txId) where
  started := hrow.started
  touched := hrow.touched
  stamped := fun _ _ => htxId
  created := fun hlive _ => hrow.created hlive hactive

/-- The `UPDATE` of a write selects rows whose stamp does not count. -/
theorem stamper_of_selects {filter : TupleFilter} {r : HeapRow}
    (hrow : ∀ j ∈ r.stamper, r.row.deletedTxId < ACTIVE_TX_ID)
    (h : c.selects k filter r = true) :
    ∀ j ∈ r.stamper, (c.write j).status ≠ .committed := by
  intro j hj hcommitted
  obtain ⟨row, hseen, hselects⟩ := Option.any_eq_true _ _ |>.mp h
  have hcounts : r.stamper.any (c.counts (some k)) = true := by
    rw [hj, Option.any_some, Tenant.counts, hcommitted]
    rfl
  rw [Tenant.seen, if_pos hcounts] at hseen
  split at hseen
  · obtain rfl := Option.some.inj hseen
    have hactive := ((deleteSelects_iff ..).mp hselects).1
    exact absurd hactive (hrow j hj).ne
  · cases hseen

/-- A restart does no harm when nothing active was created before it. -/
theorem Wf.restart (h : Wf c) (hquiet : Quiet c .restart) : Wf (c.effect .restart) where
  seq := fun _ => rfl
  write := by
    intro k
    refine ⟨?_, (h.write k).below, (h.write k).pending⟩
    intro hrunning htouches
    exact absurd (hquiet.2 k hrunning) htouches
  row := by
    intro r hr
    have hrow := h.row r hr
    refine ⟨hrow.started, hrow.touched, hrow.stamped, ?_⟩
    intro hlive hactive
    exfalso
    cases hstatus : (c.write r.inserter).status with
    | unused => exact hrow.started hstatus
    | running => exact hrow.touched (hquiet.2 _ hstatus)
    | aborted => exact hlive hstatus
    | committed =>
        -- others see the row, and it is active for them
        have hstamp : ¬ r.stamper.any (c.counts none) = true := by
          rw [Tenant.stamped_iff]
          rintro ⟨j, hj, hcommitted⟩
          exact hactive j hj hcommitted
        have hseen : c.seen none r = some { r.row with deletedTxId := ACTIVE_TX_ID } := by
          rw [Tenant.seen, if_pos (Tenant.counts_none.mpr hstatus), if_neg hstamp]
        exact hquiet.1 _ (List.mem_filterMap.mpr ⟨r, hr, hseen⟩) rfl

/-- A write starts with the next token, which is then the current one. -/
theorem Wf.begin (h : Wf c) {call : WriteCall} (ha : c.Enabled (.begin k call)) :
    Wf (c.effect (.begin k call)) := by
  obtain ⟨hunused, -, hseq⟩ := ha
  obtain ⟨hdrawn, hcurrent, hvalid⟩ := Sequence.nextval_eq h.seq
  have hle : c.seq.currentTxId ≤ c.seq.nextval.2.currentTxId := by omega
  have hput : ∀ w : Transaction, WriteWf c.seq.nextval.2.currentTxId w →
      Wf (({ c with seq := c.seq.nextval.2 } : Tenant).put c.heap k w) := by
    intro w hw
    refine ⟨hvalid, ?write, ?row⟩
    case write =>
      intro j
      show WriteWf _ (Function.update c.write k w j)
      by_cases hj : j = k
      · rw [hj, Function.update_self]
        exact hw
      · rw [Function.update_of_ne hj]
        exact (h.write j).mono hle
    case row =>
      intro r hr
      refine ((h.row r hr).mono hle).update (by rw [hunused]; nofun) fun heq => ?_
      exact absurd (heq ▸ hunused) (h.row r hr).started
  show Wf (if _ then _ else _)
  split
  · exact hput _ ⟨nofun, nofun, nofun⟩
  · rename_i hne
    refine hput _ ⟨fun _ _ => ?_, fun _ => ?_, id⟩
    · show c.seq.nextval.1 ≤ _
      omega
    · show c.seq.nextval.1 < _
      omega

/-- **Step lemma.**  Every statement keeps the invariant, if restarts are quiet. -/
theorem Wf.effect (h : Wf c) {a : Action} (hquiet : Quiet c a) (ha : c.Enabled a) :
    Wf (c.effect a) := by
  cases a with
  | begin k call => exact h.begin ha
  | delete k filter =>
      obtain ⟨hrunning, -, -⟩ := ha
      refine h.put (w := (c.write k).deleted) hrunning rfl rfl hrunning.started
        (List.Subset.refl _) ?_
      intro r hr
      obtain ⟨r, hmem, rfl⟩ := List.mem_map.mp hr
      have hrow := h.row r hmem
      by_cases hselects : c.selects k filter r = true
      · rw [if_pos hselects]
        exact hrow.stamp ((h.write k).below hrunning)
          (stamper_of_selects hrow.stamped hselects)
      · rw [if_neg hselects]
        exact hrow
  | insert k write =>
      obtain ⟨hrunning, -, hhead, -⟩ := ha
      have htouches : (c.write k).call.writes ≠ [] := by
        refine (h.write k).pending fun hnil => ?_
        rw [hnil] at hhead
        cases hhead
      refine h.put (w := (c.write k).inserted) hrunning rfl rfl hrunning.started
        (fun _ => List.mem_of_mem_tail) ?_
      intro r hr
      split at hr
      · exact h.row r hr
      · rcases List.mem_append.mp hr with hr | hr
        · exact h.row r hr
        · obtain rfl := List.mem_singleton.mp hr
          exact ⟨hrunning.started, htouches, nofun,
            fun _ _ => (h.write k).drawn hrunning htouches⟩
  | commit k =>
      exact h.put (w := (c.write k).finish .committed) ha.1 rfl rfl nofun
        (List.Subset.refl _) h.row
  | rollback k =>
      exact h.put (w := (c.write k).finish .aborted) ha rfl rfl nofun
        (List.Subset.refl _) h.row
  | deleteAll =>
      exact ⟨h.seq, h.write, fun r hr => h.row r (List.mem_of_mem_filter hr)⟩
  | restart => exact h.restart hquiet

end

/-- **Run lemma.**  Runs with quiet restarts keep the invariant. -/
theorem wf_of_run {c : Tenant} (hrun : Run Quiet c) : Wf c := by
  induction hrun with
  | new => exact .new
  | step _ hok ha ih => exact ih.effect hok ha

/-- **Purges between writes do no harm.**  In a run whose restarts find no active row and
no running write that touches a tuple, every active tuple is read without a token. -/
theorem readable_of_quiet (server : Server) (c : Tenant) (hrun : Run Quiet c) :
    Readable server c := by
  have hwf := wf_of_run hrun
  have hcreated : ∀ r ∈ c.database.rows, r.deletedTxId = ACTIVE_TX_ID →
      r.createdTxId ≤ c.database.seq.currentTxId := by
    intro r hr hactive
    obtain ⟨h, hmem, hseen⟩ := List.mem_filterMap.mp hr
    have hrow := hwf.row h hmem
    unfold Tenant.seen at hseen
    split at hseen
    · rename_i hinserter
      have hcommitted := Tenant.counts_none.mp hinserter
      by_cases hstamp : h.stamper.any (c.counts none) = true
      · -- a stamp that counts is not the active mark
        rw [if_pos hstamp] at hseen
        obtain rfl := Option.some.inj hseen
        obtain ⟨j, hj, -⟩ := Tenant.stamped_iff.mp hstamp
        exact absurd hactive (hrow.stamped j hj).ne
      · rw [if_neg hstamp] at hseen
        obtain rfl := Option.some.inj hseen
        refine hrow.created (by rw [hcommitted]; nofun) ?_
        exact fun j hj hdeleted => hstamp (Tenant.stamped_iff.mpr ⟨j, hj, hdeleted⟩)
    · cases hseen
  refine ⟨hcreated, ?_⟩
  intro hcurrent filter
  refine ⟨_, rfl, ?_⟩
  intro r hr hactive hmatch
  rw [mem_readTuples, Version.mem_visible]
  have hle := hcreated r hr hactive
  refine ⟨⟨r.toVersion, List.mem_map.mpr ⟨r, hr, rfl⟩, ⟨hle, ?_⟩, rfl⟩, hmatch⟩
  show _ < r.deletedTxId
  rw [hactive]
  exact hcurrent

/-! ### A write, a purge and another write -/

/-- The write whose statement the action is. -/
def Action.writer : Action → Option Nat
  | .begin k _ | .delete k _ | .insert k _ | .commit k | .rollback k => some k
  | .deleteAll | .restart => none

/-- A write changes by its own statements only. -/
theorem Tenant.write_effect (c : Tenant) {a : Action} {k : Nat} (h : a.writer ≠ some k) :
    (c.effect a).write k = c.write k := by
  have hput : ∀ (c : Tenant) heap j w, k ≠ j → (c.put heap j w).write k = c.write k :=
    fun _ _ _ _ hne => Function.update_of_ne hne ..
  cases a with
  | begin j call =>
      have hne : k ≠ j := fun heq => h (congrArg some heq.symm)
      show Tenant.write (if _ then _ else _) k = _
      split
      · exact hput _ _ _ _ hne
      · exact hput _ _ _ _ hne
  | delete j filter => exact hput _ _ _ _ fun heq => h (congrArg some heq.symm)
  | insert j write => exact hput _ _ _ _ fun heq => h (congrArg some heq.symm)
  | commit j => exact hput _ _ _ _ fun heq => h (congrArg some heq.symm)
  | rollback j => exact hput _ _ _ _ fun heq => h (congrArg some heq.symm)
  | deleteAll => rfl
  | restart => rfl

theorem Tenant.write_after (c : Tenant) {actions : List Action} {k : Nat}
    (h : ∀ a ∈ actions, a.writer ≠ some k) : (c.after actions).write k = c.write k := by
  induction actions generalizing c with
  | nil => rfl
  | cons a actions ih =>
      have htail := ih (c.effect a) fun b hb => h b (List.mem_cons_of_mem a hb)
      exact htail.trans (c.write_effect (h a List.mem_cons_self))

/-- When only write `0` has statements, no other is running. -/
theorem not_running_after {actions : List Action}
    (hactions : ∀ a ∈ actions, ∀ k ∈ a.writer, k = 0)
    (hfirst : (({} : Tenant).after actions).Running 0 → False) (k : Nat) :
    ¬ (({} : Tenant).after actions).Running k := by
  intro hrunning
  by_cases hk : k = 0
  · exact hfirst (hk ▸ hrunning)
  · have hwrite : (({} : Tenant).after actions).write k = {} :=
      Tenant.write_after {} fun a ha hwriter => hk (hactions a ha k hwriter)
    rw [Tenant.Running, hwrite] at hrunning
    cases hrunning

/-! ### A write and a purge -/

/-- A connection stores one tuple. -/
def touching (k : Nat) (write : TupleWrite) : List Action :=
  [.begin k ⟨[write], []⟩, .insert k write, .commit k]

def readmeViewer (userId : String) : TupleWrite :=
  ⟨⟨"doc", "readme"⟩, "viewer", .direct "user" userId⟩

/-- The purge restarts the sequence before the next write begins. -/
def orderly : List Action :=
  touching 0 (readmeViewer "alice") ++ [.deleteAll, .restart] ++
    touching 1 (readmeViewer "bob")

theorem readable_orderly : Readable heapOrder (({} : Tenant).after orderly) := by
  have hsettled := @not_running_after (touching 0 (readmeViewer "alice") ++ [.deleteAll])
    (by decide) (by decide)
  refine readable_of_quiet heapOrder _ (.after .new ?_)
  exact ⟨⟨trivial, by decide⟩, ⟨trivial, by decide⟩, ⟨trivial, by decide⟩,
    ⟨trivial, by decide⟩,
    ⟨⟨by decide, fun k hrunning => absurd hrunning (hsettled k)⟩, by decide⟩,
    ⟨trivial, by decide⟩, ⟨trivial, by decide⟩, ⟨trivial, by decide⟩, trivial⟩

/-- The write begins after the purge has deleted, and commits before it restarts. -/
def overlapping : List Action :=
  [.deleteAll] ++ touching 0 (readmeViewer "alice") ++ [.restart]

/-- **A write is lost** to reads without a token: the purge deletes before it and
restarts after it. -/
theorem purge_loses_write :
    Run (fun _ _ => True) (({} : Tenant).after overlapping) ∧
    (({} : Tenant).after overlapping).Finished ∧
    (({} : Tenant).after overlapping).database =
      { seq := {}, rows := [.ofWrite (readmeViewer "alice") 1] } ∧
    PostgresStore.read heapOrder (({} : Tenant).after overlapping).database {} none none =
      .ok [] ∧
    ¬ Readable heapOrder (({} : Tenant).after overlapping) := by
  have hdatabase : (({} : Tenant).after overlapping).database =
      { seq := {}, rows := [.ofWrite (readmeViewer "alice") 1] } := by rfl
  refine ⟨.after .new (by decide), ⟨not_running_after (by decide) (by decide), rfl⟩,
    hdatabase, by decide, ?_⟩
  intro h
  have hcreated := h.created
  rw [hdatabase] at hcreated
  exact absurd (hcreated _ (List.mem_singleton_self _) rfl) (by decide)

end Kraalzibar.Postgres.Purge
