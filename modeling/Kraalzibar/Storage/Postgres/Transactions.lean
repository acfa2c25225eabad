import Kraalzibar.Foundations.Cell
import Kraalzibar.Storage.Postgres.Store

/-!
# Concurrent writes and reads of one tenant

`PostgresStore::write` is a transaction of several statements at `READ COMMITTED`,
and `PostgresStore::read` at a token is two statements of their own.  Here the
statements of any number of calls interleave:

* `nextval` takes effect at once and is never rolled back;
* an `UPDATE` collects the rows its snapshot shows, then visits them one by one; a
  row that another running write has stamped is waited for, and checked again
  before it is stamped;
* an `INSERT` waits for the running writes that have created or stamped a row of
  its tuple, then does nothing if the tuple is active;
* a `SELECT` sees the rows of committed writes;
* a write can be rolled back at any time, by an error, a deadlock or a lost
  connection.

The main statements:

* `Run` — the runs whose steps all meet a condition, with the reads they returned;
* `Wf.effect` — the step lemma of the bookkeeping invariant;
* `snapshotRows_effect` — only a commit changes what others see.
-/

namespace Kraalzibar.Postgres

open Foundations

/-- The statements of one `write`, executed and still to execute. -/
structure Write where
  status : Status := .unused
  doneDeletes : List TupleFilter := []
  deletes : List TupleFilter := []
  /-- The rows the last `UPDATE` has not visited, by position. -/
  visiting : List Nat := []
  doneWrites : List TupleWrite := []
  writes : List TupleWrite := []

namespace Write

/-- The call the write executes. -/
def call (w : Write) : WriteCall :=
  { writes := w.doneWrites ++ w.writes, deletes := w.doneDeletes ++ w.deletes }

/-- The call deletes or touches the tuple. -/
def Affects (w : Write) (t : Tuple) : Prop :=
  w.call.deleted t = true ∨ t ∈ w.call.writes.map TupleWrite.toTuple

instance (w : Write) (t : Tuple) : Decidable (w.Affects t) :=
  inferInstanceAs (Decidable (_ ∨ _))

def start (call : WriteCall) : Write :=
  { status := .running, deletes := call.deletes, writes := call.writes }

def startDelete (w : Write) (filter : TupleFilter) (rows : List Nat) : Write :=
  { w with
    doneDeletes := w.doneDeletes ++ [filter]
    deletes := w.deletes.tail
    visiting := rows }

def pass (w : Write) (i : Nat) : Write :=
  { w with visiting := w.visiting.filter (fun j => decide (j ≠ i)) }

def insert (w : Write) (write : TupleWrite) : Write :=
  { w with doneWrites := w.doneWrites ++ [write], writes := w.writes.tail }

def finish (w : Write) (status : Status) : Write :=
  { w with status := status }

end Write

/-- The schema of one tenant as its connections share it.  `write k` is the write
that drew the token `k`, and `selecting` holds the reads whose token was checked. -/
structure Tenant where
  seq : Sequence := {}
  heap : List Row := []
  write : Nat → Write := fun _ => {}
  selecting : List (TupleFilter × Nat) := []

inductive Action where
  | begin (call : WriteCall)
  | startDelete (k : Nat) (filter : TupleFilter)
  | visit (k i : Nat)
  | insert (k : Nat) (write : TupleWrite)
  | commit (k : Nat)
  | rollback (k : Nat)
  | check (filter : TupleFilter) (snapshot : Nat)
  | select (filter : TupleFilter) (snapshot : Nat)

namespace Tenant

def Running (c : Tenant) (k : Nat) : Prop :=
  (c.write k).status = .running

instance (c : Tenant) (k : Nat) : Decidable (c.Running k) :=
  inferInstanceAs (Decidable (_ = _))

/-- What write `k` did counts in a snapshot of `own`, or in one taken outside any
write when `own` is `none`. -/
def counts (c : Tenant) (own : Option Nat) (k : Nat) : Bool :=
  decide ((c.write k).status = .committed) || decide (own = some k)

/-- The row as a snapshot shows it: a stamp that does not count is not there. -/
def seen (c : Tenant) (own : Option Nat) (r : Row) : Option Row :=
  if c.counts own r.createdTxId then
    some (if c.counts own r.deletedTxId then r else { r with deletedTxId := ACTIVE_TX_ID })
  else none

def snapshotRows (c : Tenant) (own : Option Nat) : List Row :=
  c.heap.filterMap (c.seen own)

/-- The rows an `UPDATE` of write `k` finds when it starts. -/
def candidates (c : Tenant) (k : Nat) (filter : TupleFilter) : List Nat :=
  (List.range c.heap.length).filter fun i =>
    ((c.heap[i]?).bind (c.seen (some k))).any (deleteSelects filter k)

/-- The check an `UPDATE` repeats on a row it visits.  The columns a filter compares
never change, so only `deleted_tx_id` is left to check. -/
def active (c : Tenant) (k : Nat) (r : Row) : Bool :=
  (c.seen (some k) r).any (fun r => decide (r.deletedTxId = ACTIVE_TX_ID))

/-- Another write than `k` holds the row it stamped with `txId`. -/
def Held (c : Tenant) (k txId : Nat) : Prop :=
  c.Running txId ∧ txId ≠ k

instance (c : Tenant) (k txId : Nat) : Decidable (c.Held k txId) :=
  inferInstanceAs (Decidable (_ ∧ _))

/-- The statement can run, and waits for nothing. -/
def Enabled (c : Tenant) : Action → Prop
  | .begin call => call.accepted = true ∧ c.seq.currentTxId < ACTIVE_TX_ID
  | .startDelete k filter =>
      c.Running k ∧ (c.write k).visiting = [] ∧ (c.write k).deletes.head? = some filter
  | .visit k i =>
      c.Running k ∧ i ∈ (c.write k).visiting ∧
        ∀ r ∈ c.heap[i]?, ¬ c.Held k r.deletedTxId ∧
          (c.active k r = true →
            ({ r with deletedTxId := k } : Row).key ∉ c.heap.map Row.key)
  | .insert k write =>
      c.Running k ∧ (c.write k).visiting = [] ∧ (c.write k).deletes = [] ∧
        (c.write k).writes.head? = some write ∧
        ∀ r ∈ c.heap, r.toTuple = write.toTuple →
          ¬ c.Held k r.createdTxId ∧ ¬ c.Held k r.deletedTxId
  | .commit k =>
      c.Running k ∧ (c.write k).visiting = [] ∧ (c.write k).deletes = [] ∧
        (c.write k).writes = []
  | .rollback k => c.Running k
  | .check _ snapshot => snapshot ≤ c.seq.currentTxId
  | .select filter snapshot => (filter, snapshot) ∈ c.selecting

instance (c : Tenant) (a : Action) : Decidable (c.Enabled a) :=
  match a with
  | .begin _ => inferInstanceAs (Decidable (_ ∧ _))
  | .startDelete _ _ => inferInstanceAs (Decidable (_ ∧ _))
  | .visit k i =>
      inferInstanceAs (Decidable (c.Running k ∧ i ∈ (c.write k).visiting ∧
        ∀ r ∈ c.heap[i]?, ¬ c.Held k r.deletedTxId ∧ (c.active k r = true →
          ({ r with deletedTxId := k } : Row).key ∉ c.heap.map Row.key)))
  | .insert _ _ => inferInstanceAs (Decidable (_ ∧ _ ∧ _ ∧ _ ∧ _))
  | .commit _ => inferInstanceAs (Decidable (_ ∧ _ ∧ _ ∧ _))
  | .rollback _ => inferInstanceAs (Decidable (Running _ _))
  | .check _ _ => inferInstanceAs (Decidable (_ ≤ _))
  | .select _ _ => inferInstanceAs (Decidable (_ ∈ _))

/-- The heap is `heap` and write `k` is `w`. -/
def put (c : Tenant) (heap : List Row) (k : Nat) (w : Write) : Tenant :=
  { c with heap := heap, write := Function.update c.write k w }

def effect (c : Tenant) : Action → Tenant
  | .begin call =>
      let txId := c.seq.nextval.1
      let c := { c with seq := c.seq.nextval.2 }
      -- `next_tx_id` fails on the sentinel, and leaves the token unused
      if txId = ACTIVE_TX_ID then c else c.put c.heap txId (.start call)
  | .startDelete k filter =>
      c.put c.heap k ((c.write k).startDelete filter (c.candidates k filter))
  | .visit k i =>
      c.put (c.heap.modify i fun r =>
        if c.active k r then { r with deletedTxId := k } else r) k ((c.write k).pass i)
  | .insert k write =>
      c.put (if (Row.ofWrite write k).key ∈ (c.snapshotRows (some k)).map Row.key then c.heap
        else c.heap ++ [.ofWrite write k]) k ((c.write k).insert write)
  | .commit k => c.put c.heap k ((c.write k).finish .committed)
  | .rollback k => c.put c.heap k ((c.write k).finish .aborted)
  | .check filter snapshot => { c with selecting := c.selecting ++ [(filter, snapshot)] }
  | .select filter snapshot =>
      { c with selecting := c.selecting.erase (filter, snapshot) }

end Tenant

/-- A successful `read` and what it returned. -/
structure ReadRecord where
  filter : TupleFilter
  snapshot : Nat
  tuples : List Tuple
deriving DecidableEq

/-- A `SELECT` returns what the committed rows show. -/
def Tenant.returned (server : Server) (c : Tenant) : Action → List ReadRecord
  | .select filter snapshot =>
      [{ filter, snapshot
         tuples := readTuples server (c.snapshotRows none) filter snapshot none }]
  | _ => []

def Tenant.after (c : Tenant) (actions : List Action) : Tenant :=
  actions.foldl Tenant.effect c

/-- What the `SELECT`s among the actions return. -/
def Tenant.returnedAll (server : Server) (c : Tenant) : List Action → List ReadRecord
  | [] => []
  | a :: actions => c.returned server a ++ (c.effect a).returnedAll server actions

/-- The actions can run one after another, and each meets `ok`. -/
def Tenant.Performs (ok : Tenant → Action → Prop) (c : Tenant) : List Action → Prop
  | [] => True
  | a :: actions => ok c a ∧ c.Enabled a ∧ (c.effect a).Performs ok actions

instance Tenant.decidablePerforms (ok : Tenant → Action → Prop)
    [∀ c a, Decidable (ok c a)] (c : Tenant) (actions : List Action) :
    Decidable (c.Performs ok actions) :=
  match actions with
  | [] => .isTrue trivial
  | a :: actions =>
      have := decidablePerforms ok (c.effect a) actions
      inferInstanceAs (Decidable (ok c a ∧ c.Enabled a ∧ (c.effect a).Performs ok actions))

/-- The runs of a new tenant whose steps all meet `ok`, with the reads that
succeeded. -/
inductive Run (server : Server) (ok : Tenant → Action → Prop) :
    List ReadRecord → Tenant → Prop where
  | new : Run server ok [] {}
  | step {log : List ReadRecord} {c : Tenant} {a : Action} (hrun : Run server ok log c)
      (hok : ok c a) (ha : c.Enabled a) :
      Run server ok (log ++ c.returned server a) (c.effect a)

/-! ## What a snapshot shows -/

namespace Tenant

variable {c c' : Tenant} {own : Option Nat} {k s : Nat} {t : Tuple} {heap : List Row}
  {w : Write}

@[simp] theorem heap_put : (c.put heap k w).heap = heap := rfl

@[simp] theorem write_put_self : (c.put heap k w).write k = w := by
  unfold put
  exact Function.update_self ..

@[simp] theorem write_put_ne {j : Nat} (h : j ≠ k) :
    (c.put heap k w).write j = c.write j := by
  unfold put
  exact Function.update_of_ne h ..

theorem forall_write_put {P : Nat → Write → Prop} (hk : P k w)
    (hothers : ∀ j, P j (c.write j)) (j : Nat) : P j ((c.put heap k w).write j) := by
  by_cases hj : j = k
  · subst hj
    rw [write_put_self]
    exact hk
  · rw [write_put_ne hj]
    exact hothers j

theorem counts_iff {j : Nat} : c.counts own j = true ↔
    (c.write j).status = .committed ∨ own = some j := by
  rw [counts, Bool.or_eq_true, decide_eq_true_eq, decide_eq_true_eq]

/-- **What a read of a snapshot finds.** -/
theorem mem_visible_snapshotRows :
    t ∈ Version.visible (versions (c.snapshotRows own)) s ↔
      ∃ r ∈ c.heap, r.toTuple = t ∧ c.counts own r.createdTxId = true ∧ r.createdTxId ≤ s ∧
        s < if c.counts own r.deletedTxId then r.deletedTxId else ACTIVE_TX_ID := by
  simp only [Version.mem_visible, versions, snapshotRows, List.mem_map, List.mem_filterMap]
  constructor
  · intro h
    obtain ⟨v, ⟨r', ⟨r, hr, hseen⟩, rfl⟩, hvis, rfl⟩ := h
    unfold seen at hseen
    split at hseen
    · rename_i hcreated
      obtain rfl := Option.some.inj hseen
      refine ⟨r, hr, ?_⟩
      split at hvis <;> rename_i hdeleted
      · simp only [hdeleted, if_true]
        exact ⟨rfl, hcreated, hvis⟩
      · simp only [hdeleted]
        exact ⟨rfl, hcreated, hvis⟩
    · cases hseen
  · intro h
    obtain ⟨r, hr, rfl, hcreated, hle, hlt⟩ := h
    refine ⟨_, ⟨_, ⟨r, hr, by rw [seen, if_pos hcreated]⟩, rfl⟩, ?_⟩
    split at hlt <;> rename_i hdeleted
    · rw [if_pos hdeleted]
      exact ⟨⟨hle, hlt⟩, rfl⟩
    · rw [if_neg hdeleted]
      exact ⟨⟨hle, hlt⟩, rfl⟩

theorem toTuple_seen {own : Option Nat} {r r' : Row} (h : c.seen own r = some r') :
    r'.toTuple = r.toTuple := by
  unfold seen at h
  split at h
  · obtain rfl := Option.some.inj h
    split <;> rfl
  · cases h

theorem mem_candidates {i : Nat} {filter : TupleFilter} : i ∈ c.candidates k filter ↔
    ∃ r, c.heap[i]? = some r ∧ c.active k r = true ∧ filter.matches r.toTuple = true := by
  simp only [candidates, List.mem_filter, List.mem_range, Option.any_eq_true,
    Option.bind_eq_some_iff, deleteSelects_iff, active, decide_eq_true_eq]
  constructor
  · intro h
    obtain ⟨-, r', ⟨r, hr, hseen⟩, hactive, hmatch⟩ := h
    rw [toTuple_seen hseen] at hmatch
    exact ⟨r, hr, ⟨r', hseen, hactive⟩, hmatch⟩
  · intro h
    obtain ⟨r, hr, ⟨r', hseen, hactive⟩, hmatch⟩ := h
    rw [← toTuple_seen hseen] at hmatch
    exact ⟨(List.getElem?_eq_some_iff.mp hr).1, r', ⟨r, hr, hseen⟩, hactive, hmatch⟩

theorem snapshotRows_congr (hheap : c'.heap = c.heap)
    (hcom : ∀ j, (c'.write j).status = .committed ↔ (c.write j).status = .committed) :
    c'.snapshotRows none = c.snapshotRows none := by
  have hcounts : ∀ j, c'.counts none j = c.counts none j := by
    intro j
    rw [Bool.eq_iff_iff, counts_iff, counts_iff, hcom]
  have hseen : c'.seen none = c.seen none := by
    funext r
    simp only [seen, hcounts]
  rw [snapshotRows, snapshotRows, hheap, hseen]

end Tenant

/-! ## Bookkeeping -/

/-- What holds between the sequence, the writes and the heap. -/
structure Wf (c : Tenant) : Prop where
  seq : c.seq.Valid
  unused : ∀ k, (c.write k).status = .unused → c.write k = {}
  bounds : ∀ k, (c.write k).status ≠ .unused →
    0 < k ∧ k ≤ c.seq.currentTxId ∧ k < ACTIVE_TX_ID
  visiting : ∀ k, ∀ i ∈ (c.write k).visiting, i < c.heap.length
  phase : ∀ k, (c.write k).deletes ≠ [] ∨ (c.write k).visiting ≠ [] →
    (c.write k).doneWrites = []
  finished : ∀ k, (c.write k).status = .committed →
    (c.write k).visiting = [] ∧ (c.write k).deletes = [] ∧ (c.write k).writes = []
  selecting : ∀ e ∈ c.selecting, e.2 ≤ c.seq.currentTxId

namespace Wf

variable {c : Tenant} {k : Nat} {heap : List Row} {w : Write} {a : Action}

theorem new : Wf {} where
  seq := fun _ => rfl
  unused := fun _ _ => rfl
  bounds := fun _ hk => absurd rfl hk
  visiting := fun _ i hi => absurd hi List.not_mem_nil
  phase := fun _ _ => rfl
  finished := fun _ hk => by cases hk
  selecting := fun e he => absurd he List.not_mem_nil

theorem put (h : Wf c) (hlength : c.heap.length ≤ heap.length) (hused : w.status ≠ .unused)
    (hbounds : 0 < k ∧ k ≤ c.seq.currentTxId ∧ k < ACTIVE_TX_ID)
    (hvisiting : ∀ i ∈ w.visiting, i < heap.length)
    (hphase : w.deletes ≠ [] ∨ w.visiting ≠ [] → w.doneWrites = [])
    (hfinished : w.status = .committed → w.visiting = [] ∧ w.deletes = [] ∧ w.writes = []) :
    Wf (c.put heap k w) := by
  exact {
    seq := h.seq
    unused := Tenant.forall_write_put (P := fun _ v => v.status = .unused → v = {})
      (fun h' => absurd h' hused) h.unused
    bounds := Tenant.forall_write_put (P := fun j v => v.status ≠ .unused →
      0 < j ∧ j ≤ c.seq.currentTxId ∧ j < ACTIVE_TX_ID) (fun _ => hbounds) h.bounds
    visiting := Tenant.forall_write_put (P := fun _ v => ∀ i ∈ v.visiting, i < heap.length)
      hvisiting fun j i hi => (h.visiting j i hi).trans_le hlength
    phase := Tenant.forall_write_put (P := fun _ v => v.deletes ≠ [] ∨ v.visiting ≠ [] →
      v.doneWrites = []) hphase h.phase
    finished := Tenant.forall_write_put (P := fun _ v => v.status = .committed →
      v.visiting = [] ∧ v.deletes = [] ∧ v.writes = []) hfinished h.finished
    selecting := h.selecting }

theorem used (hrun : c.Running k) : (c.write k).status ≠ .unused := by
  rw [Tenant.Running] at hrun
  rw [hrun]
  decide

theorem not_committed (hrun : c.Running k) : (c.write k).status ≠ .committed := by
  rw [Tenant.Running] at hrun
  rw [hrun]
  decide

/-- Drawing a token forgets nothing. -/
theorem nextval (h : Wf c) : Wf { c with seq := c.seq.nextval.2 } := by
  obtain ⟨-, hcurrent, hvalid⟩ := Sequence.nextval_eq h.seq
  have hle : c.seq.currentTxId ≤ c.seq.nextval.2.currentTxId := by omega
  exact {
    seq := hvalid
    unused := h.unused
    bounds := by
      intro j hj
      obtain ⟨hpos, hused, htop⟩ := h.bounds j hj
      exact ⟨hpos, hused.trans hle, htop⟩
    visiting := h.visiting
    phase := h.phase
    finished := h.finished
    selecting := fun e he => (h.selecting e he).trans hle }

/-- No write has the next token yet. -/
theorem fresh (h : Wf c) {j : Nat} (hj : c.seq.currentTxId < j) : c.write j = {} := by
  by_cases hunused : (c.write j).status = .unused
  · exact h.unused j hunused
  · exact absurd (h.bounds j hunused).2.1 (Nat.not_le_of_lt hj)

/-- **Step lemma.** -/
theorem effect (h : Wf c) (ha : c.Enabled a) : Wf (c.effect a) := by
  cases a with
  | begin call =>
      obtain ⟨-, hmax⟩ := ha
      obtain ⟨htoken, hcurrent, -⟩ := Sequence.nextval_eq h.seq
      simp only [Tenant.effect]
      split
      · exact h.nextval
      · rename_i hne
        refine h.nextval.put le_rfl (by exact nofun) ⟨by omega, ?_, by omega⟩ ?_
          (fun _ => rfl) (by exact nofun)
        · exact (htoken.trans hcurrent.symm).le
        · exact fun i hi => absurd hi List.not_mem_nil
  | startDelete k filter =>
      obtain ⟨hrun, hvisiting, hhead⟩ := ha
      refine h.put le_rfl (used hrun) (h.bounds k (used hrun)) ?_ ?_
        (fun hcom => absurd hcom (not_committed hrun))
      · intro i hi
        exact List.mem_range.mp (List.mem_filter.mp hi).1
      · intro _
        refine h.phase k (Or.inl ?_)
        intro hnil
        rw [hnil] at hhead
        cases hhead
  | visit k i =>
      obtain ⟨hrun, hi, -⟩ := ha
      refine h.put (List.length_modify ..).ge (used hrun) (h.bounds k (used hrun)) ?_ ?_
        (fun hcom => absurd hcom (not_committed hrun))
      · intro j hj
        rw [List.length_modify]
        exact h.visiting k j (List.mem_filter.mp hj).1
      · intro _
        exact h.phase k (Or.inr (List.ne_nil_of_mem hi))
  | insert k write =>
      obtain ⟨hrun, hvisiting, hdeletes, -, -⟩ := ha
      refine h.put ?_ (used hrun) (h.bounds k (used hrun)) ?_ ?_
        (fun hcom => absurd hcom (not_committed hrun))
      · split
        · exact le_rfl
        · rw [List.length_append]
          exact Nat.le_add_right _ _
      · intro i hi
        rw [Write.insert, hvisiting] at hi
        exact absurd hi List.not_mem_nil
      · intro hleft
        rcases hleft with hleft | hleft
        · exact absurd hdeletes hleft
        · exact absurd hvisiting hleft
  | commit k =>
      obtain ⟨hrun, hdone⟩ := ha
      exact h.put le_rfl (by exact nofun) (h.bounds k (used hrun)) (h.visiting k)
        (h.phase k) (fun _ => hdone)
  | rollback k =>
      exact h.put le_rfl (by exact nofun) (h.bounds k (used ha)) (h.visiting k) (h.phase k)
        (by exact nofun)
  | check filter snapshot =>
      refine { h with selecting := ?_ }
      intro e he
      rcases List.mem_append.mp he with he | he
      · exact h.selecting e he
      · rw [List.mem_singleton] at he
        subst he
        exact ha
  | select filter snapshot =>
      exact { h with selecting := fun e he => h.selecting e (List.mem_of_mem_erase he) }

end Wf

namespace Run

variable {server : Server} {ok : Tenant → Action → Prop} {log : List ReadRecord} {c : Tenant}

theorem wf (h : Run server ok log c) : Wf c := by
  induction h with
  | new => exact Wf.new
  | step hrun hok ha ih => exact ih.effect ha

/-- **A run continues with actions that can be performed.** -/
theorem extend (h : Run server ok log c) (actions : List Action)
    (hactions : c.Performs ok actions) :
    Run server ok (log ++ c.returnedAll server actions) (c.after actions) := by
  induction actions generalizing log c with
  | nil =>
      rw [Tenant.returnedAll, List.append_nil]
      exact h
  | cons a actions ih =>
      obtain ⟨hok, ha, hrest⟩ := hactions
      have hnext := ih (h.step hok ha) hrest
      rw [List.append_assoc] at hnext
      exact hnext

/-- A run that meets a condition meets every weaker one. -/
theorem mono {ok' : Tenant → Action → Prop} (h : Run server ok log c)
    (hok : ∀ c a, ok c a → ok' c a) : Run server ok' log c := by
  induction h with
  | new => exact Run.new
  | step hrun h ha ih => exact ih.step (hok _ _ h) ha

/-- A run of a new tenant, action by action. -/
theorem of_performs (server : Server) (actions : List Action)
    (h : Tenant.Performs ok {} actions) :
    Run server ok (Tenant.returnedAll server {} actions) (Tenant.after {} actions) :=
  Run.new.extend actions h

end Run

/-- The call a write executes is the one it began with. -/
theorem Tenant.call_effect {c : Tenant} {a : Action} {k : Nat} (h : Wf c)
    (hk : (c.write k).status ≠ .unused) (ha : c.Enabled a) :
    ((c.effect a).write k).call = (c.write k).call := by
  have hput : ∀ {heap : List Row} {j : Nat} {w : Write}, w.call = (c.write j).call →
      ((c.put heap j w).write k).call = (c.write k).call := by
    intro heap j w hw
    by_cases hkj : k = j
    · subst hkj
      rw [Tenant.write_put_self]
      exact hw
    · rw [Tenant.write_put_ne hkj]
  have htail : ∀ {α : Type} {l done : List α} {x : α}, l.head? = some x →
      done ++ [x] ++ l.tail = done ++ l := by
    intro α l done x hx
    rw [List.append_assoc, List.singleton_append, List.cons_head?_tail hx]
  cases a with
  | begin call =>
      obtain ⟨htoken, -, -⟩ := Sequence.nextval_eq h.seq
      simp only [Tenant.effect]
      split
      · rfl
      · have hne : k ≠ c.seq.nextval.1 := by
          have hle := (h.bounds k hk).2.1
          omega
        rw [Tenant.write_put_ne hne]
  | startDelete j filter =>
      apply hput
      rw [Write.call, Write.startDelete, Write.call, htail ha.2.2]
  | visit j i => exact hput rfl
  | insert j x =>
      apply hput
      rw [Write.call, Write.insert, Write.call, htail ha.2.2.2.1]
  | commit j => exact hput rfl
  | rollback j => exact hput rfl
  | check filter snapshot => rfl
  | select filter snapshot => rfl

theorem Tenant.affects_effect {c : Tenant} {a : Action} {k : Nat} {t : Tuple} (h : Wf c)
    (hk : (c.write k).status ≠ .unused) (ha : c.Enabled a) :
    ((c.effect a).write k).Affects t ↔ (c.write k).Affects t := by
  rw [Write.Affects, Write.Affects, Tenant.call_effect h hk ha]

/-! ## Who marked a row -/

namespace Tenant

/-- The rows after a step: old ones, one that was stamped, or one that was added. -/
theorem mem_heap_effect (c : Tenant) (a : Action) {r : Row} (hr : r ∈ (c.effect a).heap) :
    r ∈ c.heap ∨
      (∃ k i r', a = .visit k i ∧ c.heap[i]? = some r' ∧ r = { r' with deletedTxId := k }) ∨
      ∃ k x, a = .insert k x ∧ r = .ofWrite x k := by
  cases a with
  | begin call =>
      simp only [effect] at hr
      split at hr <;> exact Or.inl hr
  | visit k i =>
      obtain ⟨j, hj⟩ := List.getElem?_of_mem hr
      rw [effect, heap_put, List.getElem?_modify] at hj
      obtain ⟨r', hr', rfl⟩ := Option.map_eq_some_iff.mp hj
      by_cases hij : i = j
      · subst hij
        rw [if_pos rfl]
        by_cases hactive : c.active k r' = true
        · rw [if_pos hactive]
          exact Or.inr (Or.inl ⟨k, i, r', rfl, hr', rfl⟩)
        · rw [if_neg hactive]
          exact Or.inl (List.mem_of_getElem? hr')
      · rw [if_neg hij]
        exact Or.inl (List.mem_of_getElem? hr')
  | insert k x =>
      rw [effect, heap_put] at hr
      split at hr
      · exact Or.inl hr
      · rcases List.mem_append.mp hr with hr | hr
        · exact Or.inl hr
        · exact Or.inr (Or.inr ⟨k, x, rfl, List.mem_singleton.mp hr⟩)
  | startDelete k filter => exact Or.inl hr
  | commit k => exact Or.inl hr
  | rollback k => exact Or.inl hr
  | check filter snapshot => exact Or.inl hr
  | select filter snapshot => exact Or.inl hr

/-- A row keeps its tuple. -/
theorem toTuple_effect (c : Tenant) (a : Action) {i : Nat} (hi : i < c.heap.length) :
    ((c.effect a).heap[i]?).map Row.toTuple = (c.heap[i]?).map Row.toTuple := by
  cases a with
  | begin call =>
      simp only [effect]
      split <;> rfl
  | visit k j =>
      rw [effect, heap_put, List.getElem?_modify]
      cases c.heap[i]? with
      | none => rfl
      | some r =>
          refine congrArg some ?_
          split
          · show (if _ then _ else r).toTuple = r.toTuple
            split <;> rfl
          · rfl
  | insert k x =>
      rw [effect, heap_put]
      split
      · rfl
      · rw [List.getElem?_append_left hi]
  | startDelete k filter => rfl
  | commit k => rfl
  | rollback k => rfl
  | check filter snapshot => rfl
  | select filter snapshot => rfl

/-- The rows an `UPDATE` is to visit: old ones, or those it finds when it starts. -/
theorem mem_visiting_effect (c : Tenant) (a : Action) {k i : Nat}
    (hi : i ∈ ((c.effect a).write k).visiting) :
    i ∈ (c.write k).visiting ∨ ∃ filter, a = .startDelete k filter ∧
      i ∈ c.candidates k filter := by
  have hput : ∀ {heap : List Row} {j : Nat} {w : Write},
      i ∈ ((c.put heap j w).write k).visiting →
      (∀ i ∈ w.visiting, i ∈ (c.write j).visiting) → i ∈ (c.write k).visiting := by
    intro heap j w hi hw
    by_cases hkj : k = j
    · subst hkj
      rw [write_put_self] at hi
      exact hw i hi
    · rwa [write_put_ne hkj] at hi
  cases a with
  | begin call =>
      simp only [effect] at hi
      split at hi
      · exact Or.inl hi
      · by_cases hnew : k = c.seq.nextval.1
        · subst hnew
          rw [write_put_self] at hi
          exact absurd hi List.not_mem_nil
        · rw [write_put_ne hnew] at hi
          exact Or.inl hi
  | startDelete j filter =>
      by_cases hkj : k = j
      · subst hkj
        rw [effect, write_put_self] at hi
        exact Or.inr ⟨filter, rfl, hi⟩
      · rw [effect, write_put_ne hkj] at hi
        exact Or.inl hi
  | visit j i' => exact Or.inl (hput hi fun i hi => (List.mem_filter.mp hi).1)
  | insert j x => exact Or.inl (hput hi fun i hi => hi)
  | commit j => exact Or.inl (hput hi fun i hi => hi)
  | rollback j => exact Or.inl (hput hi fun i hi => hi)
  | check filter snapshot => exact Or.inl hi
  | select filter snapshot => exact Or.inl hi

end Tenant

/-- A row is created and stamped by writes that concern its tuple, and an `UPDATE`
visits the rows of tuples it concerns. -/
structure Marked (c : Tenant) : Prop where
  created : ∀ r ∈ c.heap, (c.write r.createdTxId).Affects r.toTuple
  deleted : ∀ r ∈ c.heap, r.deletedTxId = ACTIVE_TX_ID ∨
    (c.write r.deletedTxId).Affects r.toTuple
  visiting : ∀ k, ∀ i ∈ (c.write k).visiting, ∀ r, c.heap[i]? = some r →
    (c.write k).Affects r.toTuple

namespace Marked

variable {c : Tenant} {a : Action}

theorem new : Marked {} where
  created := fun _ hr => absurd hr List.not_mem_nil
  deleted := fun _ hr => absurd hr List.not_mem_nil
  visiting := fun _ _ hi => absurd hi List.not_mem_nil

/-- **Step lemma.** -/
theorem effect (h : Marked c) (hwf : Wf c) (ha : c.Enabled a) : Marked (c.effect a) := by
  have hkeep : ∀ k t, (c.write k).Affects t → ((c.effect a).write k).Affects t := by
    intro k t haff
    have hused : (c.write k).status ≠ .unused := by
      intro hunused
      rw [hwf.unused k hunused] at haff
      simp [Write.Affects, Write.call, WriteCall.deleted] at haff
    exact (Tenant.affects_effect hwf hused ha).mpr haff
  have hstarted : ∀ k filter, a = .startDelete k filter → ∀ i ∈ c.candidates k filter,
      ∀ r, c.heap[i]? = some r → (c.write k).Affects r.toTuple := by
    intro k filter heq i hi r hr
    obtain rfl := heq
    obtain ⟨r', hr', -, hmatch⟩ := Tenant.mem_candidates.mp hi
    obtain rfl : r = r' := Option.some.inj (hr.symm.trans hr')
    refine Or.inl (List.any_eq_true.mpr ⟨filter, ?_, hmatch⟩)
    exact List.mem_append_right _ (List.mem_of_mem_head? ha.2.2)
  refine ⟨?_, ?_, ?_⟩
  · intro r hr
    rcases Tenant.mem_heap_effect c a hr with
      hr | ⟨k, i, r', -, hr', rfl⟩ | ⟨k, x, rfl, rfl⟩
    · exact hkeep _ _ (h.created r hr)
    · exact hkeep _ _ (h.created r' (List.mem_of_getElem? hr'))
    · apply hkeep
      rw [Row.toTuple_ofWrite]
      refine Or.inr (List.mem_map_of_mem (List.mem_append_right _ ?_))
      exact List.mem_of_mem_head? ha.2.2.2.1
  · intro r hr
    rcases Tenant.mem_heap_effect c a hr with
      hr | ⟨k, i, r', rfl, hr', rfl⟩ | ⟨k, x, -, rfl⟩
    · exact (h.deleted r hr).imp_right (hkeep _ _)
    · exact Or.inr (hkeep _ _ (h.visiting k i ha.2.1 r' hr'))
    · exact Or.inl rfl
  · intro k i hi r hr
    have hold : i ∈ (c.write k).visiting ∨ ∃ filter, a = .startDelete k filter ∧
      i ∈ c.candidates k filter := Tenant.mem_visiting_effect c a hi
    have hlt : i < c.heap.length := by
      rcases hold with hi | ⟨filter, -, hi⟩
      · exact hwf.visiting k i hi
      · exact List.mem_range.mp (List.mem_filter.mp hi).1
    obtain ⟨r', hr', htuple⟩ : ∃ r', c.heap[i]? = some r' ∧ r'.toTuple = r.toTuple := by
      have hsame := Tenant.toTuple_effect c a hlt
      rw [hr] at hsame
      exact Option.map_eq_some_iff.mp hsame.symm
    apply hkeep
    rw [← htuple]
    rcases hold with hi | ⟨filter, hstart, hi⟩
    · exact h.visiting k i hi r' hr'
    · exact hstarted k filter hstart i hi r' hr'

end Marked

theorem Run.marked {server : Server} {ok : Tenant → Action → Prop} {log : List ReadRecord}
    {c : Tenant} (h : Run server ok log c) : Marked c := by
  induction h with
  | new => exact Marked.new
  | step hrun hok ha ih => exact ih.effect hrun.wf ha

/-! ## Only a commit is seen -/

theorem filterMap_modify {α β : Type} {f : α → Option β} {g : α → α} {l : List α} {i : Nat}
    (h : ∀ x ∈ l, f (g x) = f x) : (l.modify i g).filterMap f = l.filterMap f := by
  induction l generalizing i with
  | nil => simp
  | cons x l ih =>
      cases i with
      | zero => simp [List.modify_cons, List.filterMap_cons, h x List.mem_cons_self]
      | succ i =>
          have ih := ih (i := i) fun y hy => h y (List.mem_cons_of_mem x hy)
          simp [List.filterMap_cons, ih]

namespace Tenant

variable {c : Tenant} {a : Action} {k : Nat} {heap : List Row} {w : Write}

theorem active_iff {r : Row} : c.active k r = true ↔
    c.counts (some k) r.createdTxId = true ∧
      (c.counts (some k) r.deletedTxId = true → r.deletedTxId = ACTIVE_TX_ID) := by
  unfold active seen
  by_cases hcreated : c.counts (some k) r.createdTxId = true <;>
    by_cases hdeleted : c.counts (some k) r.deletedTxId = true <;>
    simp [hcreated, hdeleted]

/-- A write that has not committed changes what others see through the heap only. -/
theorem snapshotRows_put (hk : (c.write k).status ≠ .committed)
    (hw : w.status ≠ .committed) :
    (c.put heap k w).snapshotRows none = heap.filterMap (c.seen none) := by
  have hcom : ∀ j, ((c.put heap k w).write j).status = .committed ↔
      (c.write j).status = .committed := by
    intro j
    by_cases hj : j = k
    · subst hj
      rw [write_put_self]
      exact iff_of_false hw hk
    · rw [write_put_ne hj]
  exact snapshotRows_congr (c := { c with heap := heap }) rfl hcom

/-- Others do not see the stamp of a running write. -/
theorem seen_stamp (hrun : c.Running k) (r : Row) :
    c.seen none (if c.active k r then { r with deletedTxId := k } else r) =
      c.seen none r := by
  by_cases hactive : c.active k r = true
  · obtain ⟨-, hdeleted⟩ := active_iff.mp hactive
    have hk : ¬ c.counts none k = true := by
      rw [counts_iff]
      exact fun h => (Wf.not_committed hrun) (h.resolve_right nofun)
    rw [if_pos hactive]
    unfold seen
    rw [if_neg hk]
    by_cases hnone : c.counts none r.deletedTxId = true
    · have htop : r.deletedTxId = ACTIVE_TX_ID := by
        apply hdeleted
        rw [counts_iff] at hnone ⊢
        exact hnone.imp_right nofun
      obtain ⟨ot, oi, rel, st, si, sr, created, deleted⟩ := r
      obtain rfl : deleted = ACTIVE_TX_ID := htop
      rw [if_pos hnone]
    · rw [if_neg hnone]
  · rw [if_neg hactive]

/-- Others do not see the row of a running write. -/
theorem seen_ofWrite (hrun : c.Running k) (write : TupleWrite) :
    c.seen none (.ofWrite write k) = none := by
  have hk : ¬ c.counts none k = true := by
    rw [counts_iff]
    exact fun h => (Wf.not_committed hrun) (h.resolve_right nofun)
  exact if_neg hk

/-- **Before its commit a write is invisible to others.** -/
theorem snapshotRows_effect (h : Wf c) (ha : c.Enabled a) (hcommit : ∀ k, a ≠ .commit k) :
    (c.effect a).snapshotRows none = c.snapshotRows none := by
  cases a with
  | begin call =>
      obtain ⟨htoken, -, -⟩ := Sequence.nextval_eq h.seq
      simp only [effect]
      split
      · rfl
      · refine snapshotRows_put ?_ (by exact nofun)
        show (c.write _).status ≠ .committed
        rw [h.fresh (by omega)]
        exact nofun
  | startDelete k filter =>
      exact snapshotRows_put (Wf.not_committed ha.1) (Wf.not_committed ha.1)
  | visit k i =>
      refine (snapshotRows_put (w := (c.write k).pass i) (Wf.not_committed ha.1)
        (Wf.not_committed ha.1)).trans ?_
      exact filterMap_modify fun r _ => seen_stamp ha.1 r
  | insert k write =>
      refine (snapshotRows_put (w := (c.write k).insert write) (Wf.not_committed ha.1)
        (Wf.not_committed ha.1)).trans ?_
      split
      · rfl
      · rw [List.filterMap_append, List.filterMap_cons, seen_ofWrite ha.1]
        exact List.append_nil _
  | commit k => exact absurd rfl (hcommit k)
  | rollback k => exact snapshotRows_put (Wf.not_committed ha) (by exact nofun)
  | check filter snapshot => rfl
  | select filter snapshot => rfl

end Tenant

end Kraalzibar.Postgres
