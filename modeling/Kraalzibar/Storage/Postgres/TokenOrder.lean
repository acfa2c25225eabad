import Kraalzibar.Storage.Postgres.Snapshots

/-!
# Token order of concurrent writes

Tokens are drawn in one order and commits come in another.  An `UPDATE` stamps only
rows that were committed when it started, so a write with a smaller token that inserts
later is not deleted by it.  The replay in token order then differs from what a read
returns.

The rows and statements that concern one tuple form a cell of the library
`Foundations.Cell`, and an action of the tenant is at most one step of it.

* `InTokenOrder` — statements on one tuple follow the order of the tokens;
* `Tenant.cell_effect` — under that condition the tenant simulates every cell;
* `inTokenOrder_replays` — reads return the replay of the committed writes;
* `overtaken_delete` — without it, a delete can miss a tuple of a smaller token.
-/

namespace Kraalzibar.Postgres

open Foundations

/-- The part of the rows that concerns one tuple. -/
def stampAt (heap : List Row) (t : Tuple) (i : Nat) : Option Stamp :=
  ((heap[i]?).filter (fun r => decide (r.toTuple = t))).map
    (fun r => { created := r.createdTxId, deleted := r.deletedTxId })

/-- The part of a write that concerns one tuple. -/
def Write.txn (w : Write) (heap : List Row) (t : Tuple) : Txn where
  status := w.status
  pending := w.deletes.any (fun f => f.matches t) ||
    w.writes.any (fun x => decide (x.toTuple = t))
  deleted := w.doneDeletes.any (fun f => f.matches t)
  added := w.doneWrites.any (fun x => decide (x.toTuple = t))
  visiting := {i | i ∈ w.visiting ∧ (stampAt heap t i).isSome = true}

/-- The part of a tenant that concerns one tuple. -/
def Tenant.cell (c : Tenant) (t : Tuple) : Cell where
  row := stampAt c.heap t
  txn := fun k => (c.write k).txn c.heap t

/-- A statement runs only when no write with a smaller token that deletes or touches
one of its tuples is still running. -/
def InTokenOrder (c : Tenant) : Action → Prop
  | .startDelete k filter =>
      ∀ j < k, c.Running j → ∀ t, filter.matches t = true → ¬ (c.write j).Affects t
  | .insert k write =>
      ∀ j < k, c.Running j → ¬ (c.write j).Affects write.toTuple
  | _ => True

/-- The batch a token stands for: its call, once committed. -/
def Tenant.batch (c : Tenant) (k : Nat) : Batch Tuple :=
  if (c.write k).status = .committed then (c.write k).call.batch
  else { deletes := fun _ => false, adds := [] }

/-! ## The cells of a tenant -/

variable {heap : List Row} {t : Tuple} {i : Nat} {w : Write}

theorem stampAt_eq_some {st : Stamp} : stampAt heap t i = some st ↔
    ∃ r, heap[i]? = some r ∧ r.toTuple = t ∧ ⟨r.createdTxId, r.deletedTxId⟩ = st := by
  simp only [stampAt, Option.map_eq_some_iff, Option.filter_eq_some_iff, decide_eq_true_eq,
    and_assoc]

theorem stampAt_eq_none (h : ∀ r ∈ heap[i]?, r.toTuple ≠ t) : stampAt heap t i = none := by
  refine Option.eq_none_iff_forall_ne_some.mpr fun st hst => ?_
  obtain ⟨r, hr, ht, -⟩ := stampAt_eq_some.mp hst
  exact h r hr ht

theorem isSome_stampAt : (stampAt heap t i).isSome = true ↔
    (heap[i]?).map Row.toTuple = some t := by
  simp only [stampAt, Option.isSome_map, Option.isSome_filter, Option.any_eq_true,
    decide_eq_true_eq, Option.map_eq_some_iff]

theorem affects_txn : (w.txn heap t).Affects ↔ w.Affects t := by
  unfold Txn.Affects Write.Affects Write.txn
  simp only [Write.call, WriteCall.deleted, List.any_append, Bool.or_eq_true,
    List.map_append, List.mem_append, List.any_eq_true, List.mem_map, decide_eq_true_eq]
  grind

theorem txn_default : ({} : Write).txn heap t = {} := by
  ext1 <;> simp [Write.txn]

namespace Tenant

variable {c : Tenant} {k : Nat}

/-- Where every row keeps its tuple, a step of write `k` is a step of its part. -/
theorem cell_put (h : Wf c)
    (hkeep : ∀ i < c.heap.length,
      (heap[i]?).map Row.toTuple = (c.heap[i]?).map Row.toTuple) :
    (c.put heap k w).cell t = (c.cell t).put (stampAt heap t) k (w.txn heap t) := by
  refine Cell.ext rfl (funext fun j => ?_)
  by_cases hj : j = k
  · subst hj
    rw [Cell.txn_put_self]
    show ((c.put heap j w).write j).txn heap t = _
    rw [write_put_self]
  · rw [Cell.txn_put_ne _ _ _ hj]
    show ((c.put heap k w).write j).txn heap t = (c.write j).txn c.heap t
    rw [write_put_ne hj]
    ext1
    · rfl
    · rfl
    · rfl
    · rfl
    · ext i
      refine and_congr_right fun hi => ?_
      rw [isSome_stampAt, isSome_stampAt, hkeep i (h.visiting j i hi)]

theorem seen_cell {own : Option Nat} {j : Nat} :
    (c.cell t).Seen own j ↔ c.counts own j = true :=
  counts_iff.symm

theorem not_counts_top (h : Wf c) (hrun : c.Running k) :
    ¬ c.counts (some k) ACTIVE_TX_ID = true := by
  rw [counts_iff]
  intro hcounts
  rcases hcounts with hcom | heq
  · have hused : (c.write ACTIVE_TX_ID).status ≠ .unused := by
      rw [hcom]
      decide
    exact absurd (h.bounds _ hused).2.2 (Nat.lt_irrefl _)
  · obtain rfl : k = ACTIVE_TX_ID := Option.some.inj heq
    exact absurd (h.bounds _ (Wf.used hrun)).2.2 (Nat.lt_irrefl _)

/-- The rows an `UPDATE` can stamp are the live ones. -/
theorem active_iff_live (h : Wf c) (hrun : c.Running k) (r : Row) :
    c.active k r = true ↔ (c.cell t).Live (some k) ⟨r.createdTxId, r.deletedTxId⟩ := by
  rw [active_iff, Cell.Live, seen_cell, seen_cell]
  refine and_congr_right fun _ => ?_
  constructor
  · intro hdeleted hcounts
    rw [hdeleted hcounts] at hcounts
    exact not_counts_top h hrun hcounts
  · intro hnot hcounts
    exact absurd hcounts hnot

/-! ## Each action is a step of every cell -/

/-- An `UPDATE` starts. -/
theorem startDelete_cell (h : Wf c) {filter : TupleFilter}
    (ha : c.Enabled (.startDelete k filter))
    (hok : InTokenOrder c (.startDelete k filter)) :
    (c.effect (.startDelete k filter)).cell t = c.cell t ∨
      Cell.Step ACTIVE_TX_ID (c.cell t) ((c.effect (.startDelete k filter)).cell t) := by
  obtain ⟨hrun, hvisiting, hhead⟩ := ha
  obtain ⟨rest, hdeletes⟩ := List.head?_eq_some_iff.mp hhead
  have hadded : (c.write k).doneWrites = [] := by
    refine h.phase k (Or.inl ?_)
    rw [hdeletes]
    exact nofun
  have hcell : (c.effect (.startDelete k filter)).cell t = (c.cell t).put (c.cell t).row k
      (((c.write k).startDelete filter (c.candidates k filter)).txn c.heap t) :=
    cell_put h fun i _ => rfl
  have hidle : ((c.write k).txn c.heap t).visiting = ∅ := by
    simp [Write.txn, hvisiting]
  rw [hcell]
  by_cases hmatch : filter.matches t = true
  · right
    have htxn : ((c.write k).startDelete filter (c.candidates k filter)).txn c.heap t =
        ((c.cell t).txn k).delete
          (rest.any (fun f => f.matches t) ||
            (c.write k).writes.any (fun x => decide (x.toTuple = t)))
          {i | ∃ st, (c.cell t).row i = some st ∧ (c.cell t).Live (some k) st} := by
      ext1
      · rfl
      · simp [Write.txn, Write.startDelete, Txn.delete, hdeletes]
      · simp [Write.txn, Write.startDelete, Txn.delete, hmatch]
      · rfl
      · ext i
        show i ∈ c.candidates k filter ∧ _ ↔ ∃ st, stampAt c.heap t i = some st ∧ _
        rw [mem_candidates, isSome_stampAt, Option.map_eq_some_iff]
        constructor
        · intro hi
          obtain ⟨⟨r, hr, hactive, -⟩, r', hr', htuple⟩ := hi
          obtain rfl : r = r' := Option.some.inj (hr.symm.trans hr')
          exact ⟨_, stampAt_eq_some.mpr ⟨r, hr, htuple, rfl⟩,
            (active_iff_live h hrun r).mp hactive⟩
        · intro hi
          obtain ⟨st, hst, hlive⟩ := hi
          obtain ⟨r, hr, htuple, rfl⟩ := stampAt_eq_some.mp hst
          refine ⟨⟨r, hr, (active_iff_live h hrun r).mpr hlive, ?_⟩, r, hr, htuple⟩
          rw [htuple]
          exact hmatch
    rw [htxn]
    refine Cell.Step.delete k _ hrun ?_ ?_ hidle ?_
    · simp [cell, Write.txn, hdeletes, hmatch]
    · simp [cell, Write.txn, hadded]
    · intro j hj hrun' haff
      exact hok j hj hrun' t hmatch (affects_txn.mp haff)
  · left
    have htxn : ((c.write k).startDelete filter (c.candidates k filter)).txn c.heap t =
        (c.cell t).txn k := by
      ext1
      · rfl
      · simp [cell, Write.txn, Write.startDelete, hdeletes, hmatch]
      · simp [cell, Write.txn, Write.startDelete, hmatch]
      · rfl
      · refine Eq.trans (Set.eq_empty_iff_forall_notMem.mpr ?_) hidle.symm
        intro i hi
        obtain ⟨hi, hsome⟩ := hi
        obtain ⟨r, hr, -, hr'⟩ := mem_candidates.mp hi
        rw [isSome_stampAt, hr] at hsome
        obtain rfl : r.toTuple = t := Option.some.inj hsome
        exact hmatch hr'
    rw [htxn, Cell.put_self]

/-- A heap that changes in one place, seen from one tuple. -/
theorem stampAt_change {heap' : List Row} {r : Row} (hr : heap'[i]? = some r)
    (hother : ∀ j, j ≠ i → heap'[j]? = heap[j]?)
    (hold : ∀ r' ∈ heap[i]?, r'.toTuple = r.toTuple) :
    stampAt heap' t =
      if r.toTuple = t then
        Function.update (stampAt heap t) i (some ⟨r.createdTxId, r.deletedTxId⟩)
      else stampAt heap t := by
  funext j
  by_cases hj : j = i
  · subst hj
    by_cases ht : r.toTuple = t
    · rw [if_pos ht, Function.update_self, stampAt_eq_some]
      exact ⟨r, hr, ht, rfl⟩
    · rw [if_neg ht, stampAt_eq_none, stampAt_eq_none]
      · exact fun r' hr' ht' => ht ((hold r' hr').symm.trans ht')
      · intro r' hr'
        rwa [← Option.some.inj (hr.symm.trans hr')]
  · have hsame : stampAt heap' t j = stampAt heap t j := by
      rw [stampAt, stampAt, hother j hj]
    split
    · rw [Function.update_of_ne hj, hsame]
    · exact hsame

/-- Stamping a row. -/
theorem stampAt_modify {f : Row → Row} {r : Row} (hr : heap[i]? = some r)
    (hf : (f r).toTuple = r.toTuple) : stampAt (heap.modify i f) t =
      if r.toTuple = t then
        Function.update (stampAt heap t) i (some ⟨(f r).createdTxId, (f r).deletedTxId⟩)
      else stampAt heap t := by
  rw [← hf]
  refine stampAt_change ?_ (fun j hj => ?_) fun r' hr' => ?_
  · rw [List.getElem?_modify, hr]
    simp
  · rw [List.getElem?_modify]
    simp [Ne.symm hj]
  · rw [hr, Option.mem_some_iff] at hr'
    rw [← hr', hf]

/-- An `UPDATE` visits a row. -/
theorem visit_cell (h : Wf c) (ha : c.Enabled (.visit k i)) :
    (c.effect (.visit k i)).cell t = c.cell t ∨
      Cell.Step ACTIVE_TX_ID (c.cell t) ((c.effect (.visit k i)).cell t) := by
  obtain ⟨hrun, hi, -⟩ := ha
  obtain ⟨r, hr⟩ : ∃ r, c.heap[i]? = some r :=
    ⟨_, List.getElem?_eq_getElem (h.visiting k i hi)⟩
  obtain ⟨stamp, hstamp⟩ : ∃ f : Row → Row,
      f = fun r => if c.active k r then { r with deletedTxId := k } else r := ⟨_, rfl⟩
  have htuple : ∀ r, (stamp r).toTuple = r.toTuple := by
    intro r
    rw [hstamp]
    show (if _ then _ else r).toTuple = _
    split <;> rfl
  have hkeep : ∀ j < c.heap.length, ((c.heap.modify i stamp)[j]?).map Row.toTuple =
      (c.heap[j]?).map Row.toTuple := by
    intro j hj
    rw [← toTuple_effect c (.visit k i) hj, effect, ← hstamp]
    rfl
  have hcell : (c.effect (.visit k i)).cell t = (c.cell t).put
      (stampAt (c.heap.modify i stamp) t) k
      (((c.write k).pass i).txn (c.heap.modify i stamp) t) := by
    rw [effect, ← hstamp]
    exact cell_put h hkeep
  have hvisiting : ∀ j, j ∈ (((c.write k).pass i).txn (c.heap.modify i stamp) t).visiting ↔
      j ∈ ((c.write k).txn c.heap t).visiting ∧ j ≠ i := by
    intro j
    show j ∈ ((c.write k).visiting.filter _) ∧ _ ↔ (j ∈ (c.write k).visiting ∧ _) ∧ _
    rw [isSome_stampAt, isSome_stampAt, List.mem_filter, decide_eq_true_eq]
    constructor
    · intro hj
      obtain ⟨⟨hj, hji⟩, hsome⟩ := hj
      rw [hkeep j (h.visiting k j hj)] at hsome
      exact ⟨⟨hj, hsome⟩, hji⟩
    · intro hj
      obtain ⟨⟨hj, hsome⟩, hji⟩ := hj
      rw [← hkeep j (h.visiting k j hj)] at hsome
      exact ⟨⟨hj, hji⟩, hsome⟩
  rw [hcell, stampAt_modify hr (htuple r)]
  by_cases ht : r.toTuple = t
  · right
    have htxn : ((c.write k).pass i).txn (c.heap.modify i stamp) t =
        ((c.cell t).txn k).pass i :=
      Txn.ext rfl rfl rfl rfl (Set.ext hvisiting)
    have hrow : (c.cell t).row i = some ⟨r.createdTxId, r.deletedTxId⟩ :=
      stampAt_eq_some.mpr ⟨r, hr, ht, rfl⟩
    have hmem : i ∈ ((c.cell t).txn k).visiting := by
      refine ⟨hi, ?_⟩
      rw [isSome_stampAt, hr, ← ht]
      rfl
    rw [if_pos ht, htxn]
    by_cases hactive : c.active k r = true
    · have hnew : stamp r = { r with deletedTxId := k } := by
        rw [hstamp]
        exact if_pos hactive
      rw [hnew]
      exact Cell.Step.visit (c := c.cell t) k i _ hrun hmem hrow
        ((active_iff_live h hrun r).mp hactive)
    · have hnew : stamp r = r := by
        rw [hstamp]
        exact if_neg hactive
      have hsame : Function.update (stampAt c.heap t) i
          (some ⟨r.createdTxId, r.deletedTxId⟩) = stampAt c.heap t := by
        rw [Function.update_eq_self_iff]
        exact hrow.symm
      rw [hnew, hsame]
      exact Cell.Step.skip (c := c.cell t) k i _ hrun hmem hrow fun hlive =>
        hactive ((active_iff_live h hrun r).mpr hlive)
  · left
    have htxn : ((c.write k).pass i).txn (c.heap.modify i stamp) t = (c.cell t).txn k := by
      refine Txn.ext rfl rfl rfl rfl (Set.ext fun j => (hvisiting j).trans ?_)
      refine and_iff_left_of_imp ?_
      intro hparts heq
      obtain ⟨-, hsome⟩ := hparts
      obtain rfl := heq
      rw [isSome_stampAt, hr] at hsome
      exact ht (Option.some.inj hsome)
    rw [if_neg ht, htxn]
    exact Cell.put_self (c.cell t) k

/-- The conflict target of an `INSERT` is the live row of its tuple. -/
theorem mem_keys_snapshotRows (h : Wf c) (hrun : c.Running k) (x : TupleWrite) :
    (Row.ofWrite x k).key ∈ (c.snapshotRows (some k)).map Row.key ↔
      ∃ j st, (c.cell x.toTuple).row j = some st ∧ (c.cell x.toTuple).Live (some k) st := by
  have hkey : (Row.ofWrite x k).key = (x.toTuple, ACTIVE_TX_ID) := by
    rw [Row.key, Row.toTuple_ofWrite]
    rfl
  simp only [hkey, List.mem_map, snapshotRows, List.mem_filterMap]
  constructor
  · intro hkeys
    obtain ⟨r', ⟨r, hr, hseen⟩, hkey⟩ := hkeys
    obtain ⟨j, hj⟩ := List.getElem?_of_mem hr
    obtain ⟨htuple, hdeleted⟩ := Prod.mk.inj hkey
    have htuple' : r.toTuple = x.toTuple := (toTuple_seen hseen).symm.trans htuple
    refine ⟨j, _, stampAt_eq_some.mpr ⟨r, hj, htuple', rfl⟩, ?_⟩
    rw [← active_iff_live h hrun, active, hseen]
    exact decide_eq_true hdeleted
  · intro hlive
    obtain ⟨j, st, hst, hlive⟩ := hlive
    obtain ⟨r, hj, htuple, rfl⟩ := stampAt_eq_some.mp hst
    rw [← active_iff_live h hrun, active, Option.any_eq_true] at hlive
    obtain ⟨r', hseen, hdeleted⟩ := hlive
    refine ⟨r', ⟨r, List.mem_of_getElem? hj, hseen⟩, ?_⟩
    rw [Row.key, toTuple_seen hseen, htuple, decide_eq_true_eq.mp hdeleted]

/-- Adding a row. -/
theorem stampAt_append (r : Row) : stampAt (heap ++ [r]) t =
    if r.toTuple = t then
      Function.update (stampAt heap t) heap.length (some ⟨r.createdTxId, r.deletedTxId⟩)
    else stampAt heap t := by
  refine stampAt_change (by simp) (fun j hj => ?_) (by simp)
  rcases Nat.lt_or_ge j heap.length with hlt | hge
  · exact List.getElem?_append_left hlt
  · rw [List.getElem?_eq_none hge, List.getElem?_eq_none]
    rw [List.length_append, List.length_singleton]
    omega

/-- An `INSERT` runs. -/
theorem insert_cell (h : Wf c) {x : TupleWrite} (ha : c.Enabled (.insert k x))
    (hok : InTokenOrder c (.insert k x)) :
    (c.effect (.insert k x)).cell t = c.cell t ∨
      Cell.Step ACTIVE_TX_ID (c.cell t) ((c.effect (.insert k x)).cell t) := by
  obtain ⟨hrun, hvisiting, hdeletes, hhead, -⟩ := ha
  obtain ⟨rest, hwrites⟩ := List.head?_eq_some_iff.mp hhead
  obtain ⟨heap, hheap⟩ : ∃ heap, heap =
      if (Row.ofWrite x k).key ∈ (c.snapshotRows (some k)).map Row.key then c.heap
      else c.heap ++ [.ofWrite x k] := ⟨_, rfl⟩
  have hkeep : ∀ j < c.heap.length, (heap[j]?).map Row.toTuple =
      (c.heap[j]?).map Row.toTuple := by
    intro j hj
    rw [← toTuple_effect c (.insert k x) hj, effect, ← hheap]
    rfl
  have hcell : (c.effect (.insert k x)).cell t = (c.cell t).put (stampAt heap t) k
      (((c.write k).insert x).txn heap t) := by
    rw [effect, ← hheap]
    exact cell_put h hkeep
  have hidle : ∀ heap, ((c.write k).txn heap t).visiting = ∅ := by
    intro heap
    simp [Write.txn, hvisiting]
  rw [hcell]
  by_cases ht : x.toTuple = t
  · right
    have htxn : ((c.write k).insert x).txn heap t =
        ((c.cell t).txn k).add ((c.write k).deletes.any (fun f => f.matches t) ||
          rest.any (fun y => decide (y.toTuple = t))) := by
      ext1
      · rfl
      · simp [Write.txn, Write.insert, Txn.add, hwrites]
      · rfl
      · simp [Write.txn, Write.insert, Txn.add, ht]
      · exact (hidle heap).trans (hidle c.heap).symm
    have hpending : ((c.cell t).txn k).pending = true := by
      simp [cell, Write.txn, hwrites, ht]
    have hfirst : (c.cell t).First k := by
      intro j hj hrun' haff
      exact hok j hj hrun' (ht.symm ▸ affects_txn.mp haff)
    rw [htxn]
    by_cases hconflict : (Row.ofWrite x k).key ∈ (c.snapshotRows (some k)).map Row.key
    · rw [if_pos hconflict] at hheap
      obtain ⟨j, st, hrow, hlive⟩ := (mem_keys_snapshotRows h hrun x).mp hconflict
      rw [ht] at hrow hlive
      rw [hheap]
      exact Cell.Step.keep (c := c.cell t) k j st _ hrun hpending (hidle c.heap) hfirst
        hrow hlive
    · rw [if_neg hconflict] at hheap
      have hrow : stampAt heap t = Function.update (stampAt c.heap t) c.heap.length
          (some ⟨k, ACTIVE_TX_ID⟩) := by
        rw [hheap, stampAt_append, if_pos (by rw [Row.toTuple_ofWrite, ht])]
        rfl
      rw [hrow]
      refine Cell.Step.add (c := c.cell t) k c.heap.length _ hrun hpending (hidle c.heap)
        hfirst ?_ ?_
      · refine stampAt_eq_none fun r hr => ?_
        rw [List.getElem?_eq_none le_rfl] at hr
        cases hr
      · intro j st hst hlive
        rw [← ht] at hst hlive
        exact hconflict ((mem_keys_snapshotRows h hrun x).mpr ⟨j, st, hst, hlive⟩)
  · left
    have hrow : stampAt heap t = stampAt c.heap t := by
      rw [hheap]
      split
      · rfl
      · rw [stampAt_append, if_neg (by rw [Row.toTuple_ofWrite]; exact ht)]
    have htxn : ((c.write k).insert x).txn heap t = (c.cell t).txn k := by
      ext1
      · rfl
      · simp [cell, Write.txn, Write.insert, hwrites, ht]
      · rfl
      · simp [cell, Write.txn, Write.insert, ht]
      · exact (hidle heap).trans (hidle c.heap).symm
    rw [hrow, htxn]
    exact Cell.put_self (c.cell t) k

/-- **Simulation.**  An action of the tenant is a step of every cell, or leaves it
as it is. -/
theorem cell_effect (h : Wf c) {a : Action} (ha : c.Enabled a) (hok : InTokenOrder c a) :
    (c.effect a).cell t = c.cell t ∨
      Cell.Step ACTIVE_TX_ID (c.cell t) ((c.effect a).cell t) := by
  cases a with
  | begin call =>
      obtain ⟨htoken, -, -⟩ := Sequence.nextval_eq h.seq
      simp only [effect]
      split
      · exact Or.inl rfl
      · rename_i hne
        right
        rw [cell_put h.nextval fun j _ => rfl]
        have hstart : (Write.start call).txn c.heap t =
            { status := .running
              pending := ((Write.start call).txn c.heap t).pending } := by
          ext1 <;> simp [Write.txn, Write.start]
        rw [hstart]
        refine Cell.Step.begin (c := c.cell t) _ _ (by omega) ?_ ?_
        · have hmax := ha.2
          omega
        · intro j hj
          show (c.write j).txn c.heap t = {}
          rw [h.fresh (by omega), txn_default]
  | startDelete k filter => exact startDelete_cell h ha hok
  | visit k i => exact visit_cell h ha
  | insert k x => exact insert_cell h ha hok
  | commit k =>
      obtain ⟨hrun, hvisiting, hdeletes, hwrites⟩ := ha
      right
      rw [effect, cell_put h fun j _ => rfl]
      refine Cell.Step.commit (c := c.cell t) k hrun ?_ ?_
      · simp [cell, Write.txn, hdeletes, hwrites]
      · simp [cell, Write.txn, hvisiting]
  | rollback k =>
      right
      rw [effect, cell_put h fun j _ => rfl]
      exact Cell.Step.rollback (c := c.cell t) k ha
  | check filter snapshot => exact Or.inl rfl
  | select filter snapshot => exact Or.inl rfl

/-- What a read finds is what the cell of each tuple shows. -/
theorem mem_visible_iff_cell {own : Option Nat} {s : Nat} (hs : s < ACTIVE_TX_ID) :
    t ∈ Version.visible (versions (c.snapshotRows own)) s ↔ (c.cell t).Visible own s := by
  have hshows : ∀ r : Row, (c.cell t).Shows own s ⟨r.createdTxId, r.deletedTxId⟩ ↔
      c.counts own r.createdTxId = true ∧ r.createdTxId ≤ s ∧
        s < if c.counts own r.deletedTxId then r.deletedTxId else ACTIVE_TX_ID := by
    intro r
    rw [Cell.Shows, seen_cell, seen_cell]
    refine and_congr_right fun _ => and_congr_right fun _ => ?_
    by_cases hdeleted : c.counts own r.deletedTxId = true
    · rw [if_pos hdeleted]
      exact ⟨fun h => h hdeleted, fun h _ => h⟩
    · rw [if_neg hdeleted]
      exact iff_of_true (fun h => absurd h hdeleted) hs
  rw [mem_visible_snapshotRows]
  constructor
  · intro h
    obtain ⟨r, hr, ht, hvis⟩ := h
    obtain ⟨i, hi⟩ := List.getElem?_of_mem hr
    exact ⟨i, _, stampAt_eq_some.mpr ⟨r, hi, ht, rfl⟩, (hshows r).mpr hvis⟩
  · intro h
    obtain ⟨i, st, hst, hvis⟩ := h
    obtain ⟨r, hi, ht, rfl⟩ := stampAt_eq_some.mp hst
    exact ⟨r, List.mem_of_getElem? hi, ht, (hshows r).mp hvis⟩

/-- The replay of the batches is the replay of each cell. -/
theorem mem_replay_iff_cell (h : Wf c) {s : Nat} :
    t ∈ Batch.replay c.batch s ↔ (c.cell t).Replay s := by
  have hbatch : ∀ k, ((c.batch k).deletes t = true ↔
        (c.cell t).Committed k ∧ ((c.cell t).txn k).deleted = true) ∧
      (t ∈ (c.batch k).adds ↔
        (c.cell t).Committed k ∧ ((c.cell t).txn k).added = true) := by
    intro k
    unfold batch
    by_cases hcom : (c.write k).status = .committed
    · obtain ⟨-, hdeletes, hwrites⟩ := h.finished k hcom
      have hcom' : (c.cell t).Committed k := hcom
      rw [if_pos hcom, and_iff_right hcom', and_iff_right hcom']
      simp [WriteCall.batch, WriteCall.deleted, Write.call, cell, Write.txn, hdeletes,
        hwrites]
    · have hcom' : ¬ (c.cell t).Committed k := hcom
      rw [if_neg hcom]
      simp [hcom']
  induction s with
  | zero => exact Iff.rfl
  | succ s ih =>
      have ih : t ∈ Batch.replay c.batch s ↔ (c.cell t).Replay s := ih
      rw [Batch.mem_replay_succ, Cell.Replay, ih, (hbatch (s + 1)).2, ← (hbatch (s + 1)).1,
        Bool.not_eq_true]

end Tenant

/-! ## A run in token order -/

/-- **Run lemma.** -/
theorem Run.cell_inv {server : Server} {log : List ReadRecord} {c : Tenant}
    (h : Run server InTokenOrder log c) (t : Tuple) : (c.cell t).Inv ACTIVE_TX_ID := by
  induction h with
  | new =>
      have hnew : Tenant.cell {} t = Cell.new :=
        Cell.ext (funext fun i => rfl) (funext fun k => txn_default)
      rw [hnew]
      exact Cell.Inv.new ACTIVE_TX_ID
  | step hrun hok ha ih =>
      rcases Tenant.cell_effect hrun.wf ha hok with hsame | hstep
      · rw [hsame]
        exact ih
      · exact ih.step hstep

/-- **Writes take effect in token order.**  If each statement on a tuple runs after
the writes with smaller tokens that concern the tuple have ended, then in every state
a read at any token returns what the committed writes up to that token, replayed in
token order, leave.  At its own token, what a committed write touches is present, and
what it deletes and does not touch again is absent. -/
theorem inTokenOrder_replays (server : Server) {log : List ReadRecord} {c : Tenant}
    (h : Run server InTokenOrder log c) {s : Nat} (hs : s < ACTIVE_TX_ID) :
    (∀ filter t, t ∈ readTuples server (c.snapshotRows none) filter s none ↔
      t ∈ Batch.replay c.batch s ∧ filter.matches t = true) ∧
    ((c.write s).status = .committed →
      (∀ t, (c.write s).call.deleted t = true →
        t ∉ (c.write s).call.writes.map TupleWrite.toTuple →
        t ∉ readTuples server (c.snapshotRows none) {} s none) ∧
      ∀ t ∈ (c.write s).call.writes.map TupleWrite.toTuple,
        t ∈ readTuples server (c.snapshotRows none) {} s none) := by
  have hread : ∀ filter t, t ∈ readTuples server (c.snapshotRows none) filter s none ↔
      t ∈ Batch.replay c.batch s ∧ filter.matches t = true := by
    intro filter t
    rw [mem_readTuples, Tenant.mem_visible_iff_cell hs, (h.cell_inv t).value,
      Tenant.mem_replay_iff_cell h.wf]
  refine ⟨hread, ?_⟩
  intro hcom
  have hused : (c.write s).status ≠ .unused := by
    rw [hcom]
    decide
  obtain ⟨n, rfl⟩ : ∃ n, s = n + 1 :=
    ⟨s - 1, (Nat.sub_add_cancel (h.wf.bounds s hused).1).symm⟩
  have hbatch : c.batch (n + 1) = (c.write (n + 1)).call.batch := if_pos hcom
  have hown : ∀ t, t ∈ readTuples server (c.snapshotRows none) {} (n + 1) none ↔
      (t ∈ Batch.replay c.batch n ∧ (c.write (n + 1)).call.deleted t = false) ∨
        t ∈ (c.write (n + 1)).call.writes.map TupleWrite.toTuple := by
    intro t
    rw [hread, TupleFilter.matches_default, and_iff_left rfl, Batch.mem_replay_succ, hbatch]
    exact Iff.rfl
  refine ⟨?_, ?_⟩
  · intro t hdeleted hkept hmem
    rcases (hown t).mp hmem with hold | htouched
    · rw [hold.2] at hdeleted
      cases hdeleted
    · exact hkept htouched
  · intro t htouched
    exact (hown t).mpr (Or.inr htouched)

/-! ## Runs in and out of token order -/

/-- A delete runs once every smaller token has ended, and an insert once those that
concern its tuple have. -/
def SettledDeletes (c : Tenant) : Action → Prop
  | .startDelete k _ => c.Settled (k - 1)
  | .insert k write => ∀ j < k, c.Running j → ¬ (c.write j).Affects write.toTuple
  | _ => True

instance (c : Tenant) (a : Action) : Decidable (SettledDeletes c a) :=
  match a with
  | .startDelete k _ => inferInstanceAs (Decidable (∀ j ≤ k - 1, ¬ c.Running j))
  | .insert k write =>
      inferInstanceAs (Decidable
        (∀ j < k, c.Running j → ¬ (c.write j).Affects write.toTuple))
  | .begin _ | .visit _ _ | .commit _ | .rollback _ | .check _ _ | .select _ _ =>
      inferInstanceAs (Decidable True)

theorem SettledDeletes.inTokenOrder {c : Tenant} {a : Action} (h : SettledDeletes c a) :
    InTokenOrder c a := by
  cases a with
  | startDelete k filter =>
      intro j hj hrun
      exact absurd hrun (h j (by omega))
  | insert k write => exact h
  | _ => trivial

/-- `document:readme#viewer@user:bob`. -/
def bobViews : TupleWrite :=
  ⟨⟨"document", "readme"⟩, "viewer", .direct "user" "bob"⟩

/-- The second write commits before the first; a third deletes what both touched. -/
def overlappingTouches : List Action :=
  [.begin ⟨[aliceViews], []⟩, .begin ⟨[bobViews], []⟩, .insert 2 bobViews, .commit 2,
   .insert 1 aliceViews, .commit 1, .begin ⟨[bobViews], [{ objectId := some "readme" }]⟩,
   .startDelete 3 { objectId := some "readme" }, .visit 3 1, .visit 3 0, .insert 3 bobViews,
   .commit 3]

/-- At token 2 both tuples are there, and at token 3 the second alone. -/
theorem inTokenOrder_replays_overlapping :
    (∀ filter t,
      t ∈ readTuples heapOrder ((Tenant.after {} overlappingTouches).snapshotRows none)
        filter 3 none ↔
      t ∈ Batch.replay (Tenant.after {} overlappingTouches).batch 3 ∧
        filter.matches t = true) ∧
    readTuples heapOrder ((Tenant.after {} overlappingTouches).snapshotRows none)
      {} 2 none = [bobViews.toTuple, aliceViews.toTuple] ∧
    readTuples heapOrder ((Tenant.after {} overlappingTouches).snapshotRows none)
      {} 3 none = [bobViews.toTuple] :=
  have hrun : Run heapOrder SettledDeletes _ _ :=
    Run.of_performs heapOrder overlappingTouches (by decide)
  ⟨(inTokenOrder_replays heapOrder (hrun.mono fun _ _ => SettledDeletes.inTokenOrder)
    (by decide)).1, by decide, by decide⟩

/-- The second write's delete runs and commits before the first write inserts the
tuple it deletes. -/
def overtakenDelete : List Action :=
  [.begin ⟨[aliceViews], []⟩, .begin ⟨[], [{ objectId := some "readme" }]⟩,
   .startDelete 2 { objectId := some "readme" }, .commit 2, .insert 1 aliceViews, .commit 1]

/-- **A delete that returned a token and a tuple it deletes, visible there.**  Both
writes have committed, and no other ran. -/
theorem overtaken_delete :
    ∃ log c, Run heapOrder (fun _ _ => True) log c ∧
      (∀ k, (c.write k).status = .unused ∨ (c.write k).status = .committed) ∧
      ∃ t, (c.write 2).call.deleted t = true ∧ (c.write 2).call.writes = [] ∧
        t ∉ Batch.replay c.batch 2 ∧
        t ∈ readTuples heapOrder (c.snapshotRows none) {} 2 none := by
  have hrun : Run heapOrder (fun _ _ => True) _ _ :=
    Run.of_performs heapOrder overtakenDelete (by decide)
  refine ⟨_, _, hrun, ?_, aliceViews.toTuple, by decide, by decide, ?_, by decide⟩
  · intro k
    obtain rfl | rfl | rfl | hk : k = 0 ∨ k = 1 ∨ k = 2 ∨ 2 < k := by omega
    · exact Or.inl rfl
    · exact Or.inr rfl
    · exact Or.inr rfl
    · left
      rw [hrun.wf.fresh (j := k) hk]
  · rw [Batch.mem_replay_succ]
    intro hcase
    rcases hcase with h | h
    · exact absurd h.2 (by decide)
    · exact absurd h (by decide)

end Kraalzibar.Postgres
