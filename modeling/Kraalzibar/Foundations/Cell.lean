import Mathlib.Data.Set.Basic
import Mathlib.Logic.Function.Basic

/-!
# One value under concurrent transactions

Transactions draw their token when they begin, and others see what they did only
once they commit.  The table keeps every version of a value as a row stamped with
the tokens of its creator and of its deleter.  A `Cell` is the part of the table
that concerns one value: its rows, and for each transaction what it has done and
still has to do with the value.  A delete first collects the live rows and then
visits them one by one; others may step in between.

* `Step` — one step of a transaction that deletes or adds the value only after
  every smaller token that concerns the value has ended;
* `Inv` — what holds after any number of such steps;
* `Inv.step` — one step keeps it;
* `Inv.value` — at every token, the committed rows show the value exactly when
  the committed transactions, replayed in token order, leave it present.
-/

namespace Foundations

inductive Status where
  | unused
  | running
  | committed
  | aborted
deriving DecidableEq

/-- A transaction, as far as it concerns the value. -/
@[ext]
structure Txn where
  status : Status := .unused
  /-- A statement that concerns the value has not started. -/
  pending : Bool := false
  /-- A delete of the value has started. -/
  deleted : Bool := false
  added : Bool := false
  /-- The rows its delete has not visited. -/
  visiting : Set Nat := ∅

namespace Txn

def Affects (t : Txn) : Prop :=
  t.pending = true ∨ t.deleted = true ∨ t.added = true

def Executed (t : Txn) : Prop :=
  t.deleted = true ∨ t.added = true

/-- Its deletes have passed every row. -/
def Deleted (t : Txn) : Prop :=
  t.deleted = true ∧ t.visiting = ∅

theorem Executed.affects {t : Txn} (h : t.Executed) : t.Affects :=
  Or.inr h

/-- A delete starts, with `rows` to visit. -/
def delete (t : Txn) (pending : Bool) (rows : Set Nat) : Txn :=
  { t with pending := pending, deleted := true, visiting := rows }

/-- The delete has visited row `i`. -/
def pass (t : Txn) (i : Nat) : Txn :=
  { t with visiting := {j | j ∈ t.visiting ∧ j ≠ i} }

def add (t : Txn) (pending : Bool) : Txn :=
  { t with pending := pending, added := true }

def finish (t : Txn) (status : Status) : Txn :=
  { t with status := status }

end Txn

/-- The creator and the deleter of a row. -/
structure Stamp where
  created : Nat
  deleted : Nat

@[ext]
structure Cell where
  row : Nat → Option Stamp
  txn : Nat → Txn

namespace Cell

def new : Cell :=
  { row := fun _ => none, txn := fun _ => {} }

def Running (c : Cell) (k : Nat) : Prop :=
  (c.txn k).status = .running

def Committed (c : Cell) (k : Nat) : Prop :=
  (c.txn k).status = .committed

/-- What transaction `k` did counts for `own`, or for others when `own` is
`none`. -/
def Seen (c : Cell) (own : Option Nat) (k : Nat) : Prop :=
  c.Committed k ∨ own = some k

def Live (c : Cell) (own : Option Nat) (st : Stamp) : Prop :=
  c.Seen own st.created ∧ ¬ c.Seen own st.deleted

/-- A read at token `s` shows a row so stamped. -/
def Shows (c : Cell) (own : Option Nat) (s : Nat) (st : Stamp) : Prop :=
  c.Seen own st.created ∧ st.created ≤ s ∧ (c.Seen own st.deleted → s < st.deleted)

/-- A read at token `s` finds the value. -/
def Visible (c : Cell) (own : Option Nat) (s : Nat) : Prop :=
  ∃ i st, c.row i = some st ∧ c.Shows own s st

/-- The value is present after the committed transactions up to `s`, each
deleting before it adds. -/
def Replay (c : Cell) : Nat → Prop
  | 0 => False
  | s + 1 =>
      (c.Replay s ∧ ¬ (c.Committed (s + 1) ∧ (c.txn (s + 1)).deleted = true)) ∨
        (c.Committed (s + 1) ∧ (c.txn (s + 1)).added = true)

/-- No smaller token that concerns the value is still running. -/
def First (c : Cell) (k : Nat) : Prop :=
  ∀ j < k, c.Running j → ¬ (c.txn j).Affects

/-- The rows are `row` and transaction `k` is `t`. -/
def put (c : Cell) (row : Nat → Option Stamp) (k : Nat) (t : Txn) : Cell :=
  { row := row, txn := Function.update c.txn k t }

@[simp] theorem row_put (c : Cell) (row : Nat → Option Stamp) (k : Nat) (t : Txn) :
    (c.put row k t).row = row := rfl

@[simp] theorem txn_put_self (c : Cell) (row : Nat → Option Stamp) (k : Nat) (t : Txn) :
    (c.put row k t).txn k = t := by
  unfold put
  exact Function.update_self ..

@[simp] theorem txn_put_ne (c : Cell) (row : Nat → Option Stamp) {k j : Nat} (t : Txn)
    (h : j ≠ k) : (c.put row k t).txn j = c.txn j := by
  unfold put
  exact Function.update_of_ne h ..

/-- What holds of every transaction after a change of transaction `k`. -/
theorem forall_txn_put {c : Cell} {row : Nat → Option Stamp} {k : Nat} {t : Txn}
    {P : Nat → Txn → Prop} :
    (∀ j, P j ((c.put row k t).txn j)) ↔ P k t ∧ ∀ j, j ≠ k → P j (c.txn j) :=
  Function.forall_update_iff c.txn P

@[simp] theorem put_self (c : Cell) (k : Nat) : c.put c.row k (c.txn k) = c := by
  unfold put
  rw [Function.update_eq_self]

/-- The delete of `k` stamps row `i`. -/
def visit (c : Cell) (k i : Nat) (st : Stamp) : Cell :=
  c.put (Function.update c.row i (some { st with deleted := k })) k ((c.txn k).pass i)

/-- Transaction `k` adds row `i`. -/
def install (c : Cell) (top k i : Nat) (pending : Bool) : Cell :=
  c.put (Function.update c.row i (some { created := k, deleted := top })) k
    ((c.txn k).add pending)

def commit (c : Cell) (k : Nat) : Cell :=
  c.put c.row k ((c.txn k).finish .committed)

/-- One step; `top` is the deleter of a row nobody deleted. -/
inductive Step (top : Nat) (c : Cell) : Cell → Prop where
  | begin (n : Nat) (pending : Bool) (hpos : 0 < n) (htop : n < top)
      (hfresh : ∀ j, n ≤ j → c.txn j = {}) :
      Step top c (c.put c.row n { status := .running, pending := pending })
  | delete (k : Nat) (pending : Bool) (hrun : c.Running k)
      (hpending : (c.txn k).pending = true) (hadded : (c.txn k).added = false)
      (hidle : (c.txn k).visiting = ∅) (hfirst : c.First k) :
      Step top c (c.put c.row k
        ((c.txn k).delete pending {i | ∃ st, c.row i = some st ∧ c.Live (some k) st}))
  | visit (k i : Nat) (st : Stamp) (hrun : c.Running k)
      (hi : i ∈ (c.txn k).visiting) (hrow : c.row i = some st)
      (hlive : c.Live (some k) st) :
      Step top c (c.visit k i st)
  | skip (k i : Nat) (st : Stamp) (hrun : c.Running k)
      (hi : i ∈ (c.txn k).visiting) (hrow : c.row i = some st)
      (hgone : ¬ c.Live (some k) st) :
      Step top c (c.put c.row k ((c.txn k).pass i))
  | add (k i : Nat) (pending : Bool) (hrun : c.Running k)
      (hpending : (c.txn k).pending = true) (hidle : (c.txn k).visiting = ∅)
      (hfirst : c.First k) (hfree : c.row i = none)
      (habsent : ∀ j st, c.row j = some st → ¬ c.Live (some k) st) :
      Step top c (c.install top k i pending)
  | keep (k j : Nat) (st : Stamp) (pending : Bool) (hrun : c.Running k)
      (hpending : (c.txn k).pending = true) (hidle : (c.txn k).visiting = ∅)
      (hfirst : c.First k) (hrow : c.row j = some st) (hlive : c.Live (some k) st) :
      Step top c (c.put c.row k ((c.txn k).add pending))
  | commit (k : Nat) (hrun : c.Running k)
      (hdone : (c.txn k).pending = false) (hidle : (c.txn k).visiting = ∅) :
      Step top c (c.commit k)
  | rollback (k : Nat) (hrun : c.Running k) :
      Step top c (c.put c.row k ((c.txn k).finish .aborted))

/-- What transaction `k`, standing at `t`, reads while it runs: below its token the
history of the others, from its token on what its own statements have left. -/
def Own (c : Cell) (k : Nat) (t : Txn) : Prop :=
  (∀ s < k, c.Visible (some k) s ↔ c.Replay s) ∧
    ∀ s, k ≤ s → (c.Visible (some k) s ↔
      (c.Replay (k - 1) ∧ ¬ t.Deleted) ∨ t.added = true)

structure Inv (top : Nat) (c : Cell) : Prop where
  unused : ∀ k, (c.txn k).status = .unused → c.txn k = {}
  bounds : ∀ k, (c.txn k).status ≠ .unused → 0 < k ∧ k < top
  visits : ∀ k i, i ∈ (c.txn k).visiting →
    (c.txn k).deleted = true ∧ (c.txn k).added = false
  done : ∀ k, c.Committed k → (c.txn k).pending = false
  order : ∀ k j, k < j → c.Running k → (c.txn k).Affects → ¬ (c.txn j).Executed
  marks : ∀ i st, c.row i = some st → (c.txn st.created).Executed ∧
    (st.deleted = top ∨ (c.txn st.deleted).Executed)
  value : ∀ s, c.Visible none s ↔ c.Replay s
  own : ∀ k, c.Running k → (c.txn k).Executed → c.Own k (c.txn k)
  live : ∀ k, c.Running k → (c.txn k).deleted = true → (c.txn k).added = false →
    ∀ i, i ∈ (c.txn k).visiting ↔ ∃ st, c.row i = some st ∧ c.Live (some k) st

variable {c c' : Cell} {top k j s : Nat} {own : Option Nat}

/-! ## What others see -/

theorem update_eq_some {row : Nat → Option Stamp} {i j : Nat} {new st : Stamp} :
    Function.update row i (some new) j = some st ↔
      (j = i ∧ st = new) ∨ (j ≠ i ∧ row j = some st) := by
  by_cases hj : j = i
  · subst hj
    rw [Function.update_self, Option.some.injEq]
    simp [eq_comm]
  · rw [Function.update_of_ne hj]
    simp [hj]

/-- Nothing changed for the transactions that see only committed ones. -/
def Quiet (c c' : Cell) : Prop :=
  ∀ j, (c'.Committed j ↔ c.Committed j) ∧ (c.Committed j → c'.txn j = c.txn j)

theorem quiet_put (row : Nat → Option Stamp) {t : Txn}
    (h : ¬ c.Committed k) (ht : t.status ≠ .committed) : c.Quiet (c.put row k t) := by
  intro j
  unfold Committed at *
  by_cases hj : j = k
  · subst hj
    rw [txn_put_self]
    exact ⟨⟨fun h' => absurd h' ht, fun h' => absurd h' h⟩, fun h' => absurd h' h⟩
  · rw [txn_put_ne c row t hj]
    exact ⟨Iff.rfl, fun _ => rfl⟩

theorem Quiet.seen (h : c.Quiet c') : c'.Seen own k ↔ c.Seen own k :=
  or_congr (h k).1 Iff.rfl

theorem Quiet.live (h : c.Quiet c') {st : Stamp} : c'.Live own st ↔ c.Live own st :=
  and_congr h.seen (not_congr h.seen)

theorem Quiet.shows (h : c.Quiet c') {st : Stamp} :
    c'.Shows own s st ↔ c.Shows own s st := by
  unfold Shows
  simp only [h.seen]

theorem Quiet.visible (h : c.Quiet c') (hrow : c'.row = c.row) :
    c'.Visible own s ↔ c.Visible own s := by
  unfold Visible
  simp only [hrow, h.shows]

/-- Stamping a row anew changes only the reads that tell the stamps apart. -/
theorem Quiet.visible_update (h : c.Quiet c') {i : Nat} {st st' : Stamp}
    (hrow : c.row i = some st) (hrow' : c'.row = Function.update c.row i (some st'))
    (hshows : c.Shows own s st' ↔ c.Shows own s st) :
    c'.Visible own s ↔ c.Visible own s := by
  unfold Visible
  simp only [h.shows, hrow']
  refine exists_congr fun j => ?_
  by_cases hj : j = i
  · subst hj
    simp only [Function.update_self, hrow, Option.some.injEq, exists_eq_left', hshows]
  · simp only [Function.update_of_ne hj]

theorem replay_congr (h : ∀ j ≤ s,
    (c'.Committed j ∧ (c'.txn j).deleted = true ↔ c.Committed j ∧ (c.txn j).deleted = true) ∧
      (c'.Committed j ∧ (c'.txn j).added = true ↔ c.Committed j ∧ (c.txn j).added = true)) :
    c'.Replay s ↔ c.Replay s := by
  induction s with
  | zero => exact Iff.rfl
  | succ s ih =>
      have hstep := h (s + 1) le_rfl
      have ih := ih fun j hj => h j (by omega)
      rw [Replay, Replay, ih, hstep.1, hstep.2]

theorem Quiet.replay (h : c.Quiet c') : c'.Replay s ↔ c.Replay s := by
  apply replay_congr
  intro j _
  by_cases hj : c.Committed j
  · have hj' : c'.Committed j := (h j).1.mpr hj
    rw [(h j).2 hj]
    simp only [hj, hj', true_and, and_self]
  · have hj' : ¬ c'.Committed j := fun h' => hj ((h j).1.mp h')
    simp only [hj, hj', false_and, and_self]

/-- Tokens that do not concern the value leave the replay as it is. -/
theorem replay_idle {n : Nat} (hn : n ≤ s)
    (h : ∀ j, n < j → c.Committed j → ¬ (c.txn j).Executed) :
    c.Replay s ↔ c.Replay n := by
  induction s, hn using Nat.le_induction with
  | base => exact Iff.rfl
  | succ s hs ih =>
      rw [Replay, ← ih]
      have hidle := h (s + 1) (by omega)
      have hdeleted : ¬ (c.Committed (s + 1) ∧ (c.txn (s + 1)).deleted = true) :=
        fun h' => hidle h'.1 (Or.inl h'.2)
      have hadded : ¬ (c.Committed (s + 1) ∧ (c.txn (s + 1)).added = true) :=
        fun h' => hidle h'.1 (Or.inr h'.2)
      simp only [hdeleted, hadded, not_false_eq_true, and_true, or_false]

theorem Quiet.own_iff (h : c.Quiet c') (hrow : c'.row = c.row) {t : Txn} :
    c'.Own k t ↔ c.Own k t := by
  unfold Own
  simp only [h.visible hrow, h.replay]

/-- Where every token is at most `k`, a read at `k` or later by `k` finds exactly
the live rows. -/
theorem visible_iff_live_of_le (hle : ∀ i st, c.row i = some st →
      st.created ≤ k ∧ (c.Seen (some k) st.deleted → st.deleted ≤ k)) (hs : k ≤ s) :
    c.Visible (some k) s ↔ ∃ i st, c.row i = some st ∧ c.Live (some k) st := by
  refine exists_congr fun i => exists_congr fun st => ?_
  constructor
  · intro hvis
    obtain ⟨hrow, hcreated, -, hdeleted⟩ := hvis
    refine ⟨hrow, hcreated, ?_⟩
    intro hseen
    have hlt := hdeleted hseen
    have hle := (hle i st hrow).2 hseen
    omega
  · intro hlive
    obtain ⟨hrow, hcreated, hdeleted⟩ := hlive
    have hle := (hle i st hrow).1
    exact ⟨hrow, hcreated, by omega, fun hseen => absurd hseen hdeleted⟩

theorem Running.not_committed (h : c.Running k) : ¬ c.Committed k := by
  intro hcom
  rw [Running] at h
  rw [Committed, h] at hcom
  cases hcom

theorem Running.used (h : c.Running k) : (c.txn k).status ≠ .unused := by
  rw [Running] at h
  rw [h]
  decide

/-! ## What a running transaction sees -/

namespace Inv

/-- Two running transactions have not both executed a statement. -/
theorem alone (h : Inv top c) (hk : c.Running k) (hexec : (c.txn k).Executed)
    (hj : c.Running j) (hexec' : (c.txn j).Executed) : j = k := by
  rcases Nat.lt_trichotomy j k with hlt | heq | hgt
  · exact absurd hexec (h.order j k hlt hj hexec'.affects)
  · exact heq
  · exact absurd hexec' (h.order k j hgt hk hexec.affects)

/-- Nobody else has executed a statement when the first transaction does. -/
theorem alone_of_first (h : Inv top c) (hk : c.Running k) (haff : (c.txn k).Affects)
    (hfirst : c.First k) (hj : c.Running j) (hexec : (c.txn j).Executed) : j = k := by
  rcases Nat.lt_trichotomy j k with hlt | heq | hgt
  · exact absurd hexec.affects (hfirst j hlt hj)
  · exact heq
  · exact absurd hexec (h.order k j hgt hk haff)

theorem not_seen_top (h : Inv top c) (hk : c.Running k) : ¬ c.Seen (some k) top := by
  intro hseen
  rcases hseen with hcom | heq
  · have hused : (c.txn top).status ≠ .unused := by
      rw [Committed] at hcom
      rw [hcom]
      decide
    exact absurd (h.bounds top hused).2 (Nat.lt_irrefl top)
  · obtain rfl : k = top := Option.some.inj heq
    exact absurd (h.bounds k hk.used).2 (Nat.lt_irrefl k)

/-- A transaction that has not executed a statement has marked no row. -/
theorem unmarked (h : Inv top c) (hk : c.Running k) (hexec : ¬ (c.txn k).Executed) {i : Nat}
    {st : Stamp} (hrow : c.row i = some st) : st.created ≠ k ∧ st.deleted ≠ k := by
  have hmarks := h.marks i st hrow
  refine ⟨?_, ?_⟩
  · intro heq
    obtain rfl := heq
    exact hexec hmarks.1
  · intro heq
    obtain rfl := heq
    rcases hmarks.2 with htop | hmark
    · exact absurd (htop ▸ (h.bounds _ hk.used).2) (Nat.lt_irrefl top)
    · exact hexec hmark

/-- The rows carry no token above that of a running transaction of the value. -/
theorem marks_le (h : Inv top c) (hk : c.Running k) (haff : (c.txn k).Affects) {i : Nat}
    {st : Stamp} (hrow : c.row i = some st) :
    st.created ≤ k ∧ (c.Seen (some k) st.deleted → st.deleted ≤ k) := by
  have hmarks := h.marks i st hrow
  have hle : ∀ j, (c.txn j).Executed → j ≤ k := fun j hj =>
    Nat.le_of_not_lt fun hlt => h.order k j hlt hk haff hj
  refine ⟨hle _ hmarks.1, ?_⟩
  intro hseen
  rcases hmarks.2 with htop | hexec
  · rw [htop] at hseen
    exact absurd hseen (h.not_seen_top hk)
  · exact hle _ hexec

/-- From its own token on, a running transaction reads the value exactly when it
has a live row. -/
theorem visible_iff_live (h : Inv top c) (hk : c.Running k) (haff : (c.txn k).Affects)
    (hs : k ≤ s) : c.Visible (some k) s ↔
      ∃ i st, c.row i = some st ∧ c.Live (some k) st :=
  visible_iff_live_of_le (fun _ _ => h.marks_le hk haff) hs

/-- The committed history does not move from a running transaction's token on. -/
theorem replay_stable (h : Inv top c) (hk : c.Running k) (haff : (c.txn k).Affects)
    (hs : k ≤ s) : c.Replay s ↔ c.Replay (k - 1) := by
  apply replay_idle (by omega)
  intro j hj hcom hexec
  by_cases heq : j = k
  · subst heq
    exact hk.not_committed hcom
  · exact h.order k j (by omega) hk haff hexec

/-- A transaction that has not executed a statement reads what others read. -/
theorem visible_unmarked (h : Inv top c) (hk : c.Running k)
    (hexec : ¬ (c.txn k).Executed) : c.Visible (some k) s ↔ c.Visible none s := by
  have hseen : ∀ j, j ≠ k → (c.Seen (some k) j ↔ c.Seen none j) := by
    intro j hj
    refine or_congr_right (iff_of_false ?_ nofun)
    intro heq
    exact hj (Option.some.inj heq).symm
  refine exists_congr fun i => exists_congr fun st => and_congr_right fun hrow => ?_
  have hne := h.unmarked hk hexec hrow
  unfold Shows
  rw [hseen st.created hne.1, hseen st.deleted hne.2]

/-- A running transaction of the value reads its own effect on the history. -/
theorem own_of_affects (h : Inv top c) (hk : c.Running k) (haff : (c.txn k).Affects) :
    c.Own k (c.txn k) := by
  by_cases hexec : (c.txn k).Executed
  · exact h.own k hk hexec
  · have hvisible : ∀ s, c.Visible (some k) s ↔ c.Replay s := fun s =>
      (h.visible_unmarked hk hexec).trans (h.value s)
    refine ⟨fun s _ => hvisible s, ?_⟩
    intro s hs
    have hdeleted : ¬ (c.txn k).Deleted := fun hd => hexec (Or.inl hd.1)
    have hadded : ¬ (c.txn k).added = true := fun ha => hexec (Or.inr ha)
    rw [hvisible, h.replay_stable hk haff hs, and_iff_left hdeleted, or_iff_left hadded]

/-! ## One step -/

variable {row : Nat → Option Stamp} {t : Txn}

/-- What a step of transaction `k` has to show for the invariant. -/
theorem put (h : Inv top c) (hused : t.status ≠ .unused) (hbounds : 0 < k ∧ k < top)
    (hvisits : ∀ i ∈ t.visiting, t.deleted = true ∧ t.added = false)
    (hdone : t.status = .committed → t.pending = false)
    (hlater : t.status = .running → t.Affects → ∀ j, k < j → ¬ (c.txn j).Executed)
    (hfirst : t.Executed → (c.txn k).Executed ∨ c.First k)
    (hmarks : ∀ i st, row i = some st → ((c.put row k t).txn st.created).Executed ∧
      (st.deleted = top ∨ ((c.put row k t).txn st.deleted).Executed))
    (hvalue : ∀ s, (c.put row k t).Visible none s ↔ (c.put row k t).Replay s)
    (hown : t.status = .running → t.Executed → (c.put row k t).Own k t)
    (hothers : ∀ j, j ≠ k → c.Running j → (c.txn j).Executed →
      (c.put row k t).Own j (c.txn j))
    (hlive : t.status = .running → t.deleted = true → t.added = false →
      ∀ i, i ∈ t.visiting ↔ ∃ st, row i = some st ∧ (c.put row k t).Live (some k) st)
    (hlives : ∀ j, j ≠ k → c.Running j → (c.txn j).deleted = true →
      (c.txn j).added = false → ∀ i, i ∈ (c.txn j).visiting ↔
        ∃ st, row i = some st ∧ (c.put row k t).Live (some j) st) :
    Inv top (c.put row k t) := by
  refine ⟨?_, ?_, ?_, ?_, ?_, hmarks, hvalue, ?_, ?_⟩
  · refine (forall_txn_put (P := fun _ u => u.status = .unused → u = {})).mpr ⟨?_, ?_⟩
    · exact fun hj => absurd hj hused
    · exact fun j _ => h.unused j
  · refine (forall_txn_put (P := fun j u => u.status ≠ .unused → 0 < j ∧ j < top)).mpr
      ⟨?_, ?_⟩
    · exact fun _ => hbounds
    · exact fun j _ => h.bounds j
  · refine (forall_txn_put (P := fun _ u => ∀ i, i ∈ u.visiting →
      u.deleted = true ∧ u.added = false)).mpr ⟨hvisits, ?_⟩
    exact fun j _ => h.visits j
  · refine (forall_txn_put (P := fun _ u => u.status = .committed →
      u.pending = false)).mpr ⟨hdone, ?_⟩
    exact fun j _ => h.done j
  · intro i j hlt hrun haff
    unfold Running at hrun
    by_cases hik : i = k
    · subst hik
      rw [txn_put_self] at hrun haff
      rw [txn_put_ne _ _ _ hlt.ne']
      exact hlater hrun haff j hlt
    · rw [txn_put_ne _ _ _ hik] at hrun haff
      by_cases hjk : j = k
      · subst hjk
        rw [txn_put_self]
        intro hexec
        rcases hfirst hexec with hexec | hfirst
        · exact h.order i j hlt hrun haff hexec
        · exact hfirst i hlt hrun haff
      · rw [txn_put_ne _ _ _ hjk]
        exact h.order i j hlt hrun haff
  · exact (forall_txn_put (P := fun j u => u.status = .running → u.Executed →
      (c.put row k t).Own j u)).mpr ⟨hown, hothers⟩
  · exact (forall_txn_put (P := fun j u => u.status = .running → u.deleted = true →
      u.added = false → ∀ i, i ∈ u.visiting ↔
        ∃ st, row i = some st ∧ (c.put row k t).Live (some j) st)).mpr ⟨hlive, hlives⟩

/-- Marks stay marks when a step forgets nothing. -/
theorem marks_put (h : Inv top c) (hexec : (c.txn k).Executed → t.Executed) {i : Nat}
    {st : Stamp} (hrow : c.row i = some st) :
    ((c.put row k t).txn st.created).Executed ∧
      (st.deleted = top ∨ ((c.put row k t).txn st.deleted).Executed) := by
  have hkeep : ∀ j, (c.txn j).Executed → ((c.put row k t).txn j).Executed := by
    intro j hj
    by_cases hjk : j = k
    · subst hjk
      rw [txn_put_self]
      exact hexec hj
    · rwa [txn_put_ne _ _ _ hjk]
  have hmarks := h.marks i st hrow
  exact ⟨hkeep _ hmarks.1, hmarks.2.imp_right (hkeep _)⟩

/-- A step that changes neither the rows nor what is committed. -/
theorem put_quiet (h : Inv top c) (hcom : ¬ c.Committed k) (hcom' : t.status ≠ .committed)
    (hused : t.status ≠ .unused) (hbounds : 0 < k ∧ k < top)
    (hvisits : ∀ i ∈ t.visiting, t.deleted = true ∧ t.added = false)
    (hlater : t.status = .running → t.Affects → ∀ j, k < j → ¬ (c.txn j).Executed)
    (hfirst : t.Executed → (c.txn k).Executed ∨ c.First k)
    (hexec : (c.txn k).Executed → t.Executed)
    (hown : t.status = .running → t.Executed → c.Own k t)
    (hlive : t.status = .running → t.deleted = true → t.added = false →
      ∀ i, i ∈ t.visiting ↔ ∃ st, c.row i = some st ∧ c.Live (some k) st) :
    Inv top (c.put c.row k t) := by
  have hquiet : c.Quiet (c.put c.row k t) := quiet_put c.row hcom hcom'
  refine h.put hused hbounds hvisits (fun h' => absurd h' hcom') hlater hfirst
    (fun i st => h.marks_put hexec) ?_ ?_ ?_ ?_ ?_
  · intro s
    rw [hquiet.visible rfl, hquiet.replay]
    exact h.value s
  · intro hrun hexec'
    exact (hquiet.own_iff rfl).mpr (hown hrun hexec')
  · intro j _ hrun hexec'
    exact (hquiet.own_iff rfl).mpr (h.own j hrun hexec')
  · simp only [hquiet.live]
    exact hlive
  · intro j _ hrun hdel hadd
    simp only [hquiet.live]
    exact h.live j hrun hdel hadd

/-- **A transaction begins.** -/
theorem begin (h : Inv top c) {n : Nat} {pending : Bool} (hpos : 0 < n) (htop : n < top)
    (hfresh : ∀ j, n ≤ j → c.txn j = {}) :
    Inv top (c.put c.row n { status := .running, pending := pending }) := by
  have hidle : ∀ j, n ≤ j → ¬ (c.txn j).Executed := by
    intro j hj hexec
    rw [hfresh j hj] at hexec
    rcases hexec with h | h <;> cases h
  have hcom : ¬ c.Committed n := by
    rw [Committed, hfresh n le_rfl]
    exact nofun
  refine h.put_quiet hcom (by decide +revert) (by decide +revert) ⟨hpos, htop⟩
    ?_ ?_ ?_ ?_ ?_ ?_
  · intro i hi
    exact absurd hi (Set.notMem_empty i)
  · intro _ _ j hj
    exact hidle j hj.le
  · intro hexec
    rcases hexec with h | h <;> cases h
  · intro hexec
    exact absurd hexec (hidle n le_rfl)
  · intro _ hexec
    rcases hexec with h | h <;> cases h
  · intro _ hdel
    cases hdel

/-- **A delete starts**, and collects the rows it has to visit. -/
theorem delete (h : Inv top c) {pending : Bool} (hrun : c.Running k)
    (hpending : (c.txn k).pending = true) (hadded : (c.txn k).added = false)
    (hfirst : c.First k) :
    Inv top (c.put c.row k
      ((c.txn k).delete pending {i | ∃ st, c.row i = some st ∧ c.Live (some k) st})) := by
  have haff : (c.txn k).Affects := Or.inl hpending
  have hown := h.own_of_affects hrun haff
  refine h.put_quiet hrun.not_committed hrun.not_committed hrun.used
    (h.bounds k hrun.used) ?_ ?_ ?_ ?_ ?_ ?_
  · intro i _
    exact ⟨rfl, hadded⟩
  · intro _ _ j hj
    exact h.order k j hj hrun haff
  · intro _
    exact Or.inr hfirst
  · intro _
    exact Or.inl rfl
  · intro _ _
    refine ⟨hown.1, ?_⟩
    intro s hs
    have hadded' : ¬ (c.txn k).added = true := by
      rw [hadded]
      decide
    have hbefore := hown.2 s hs
    rw [or_iff_left hadded'] at hbefore
    refine Iff.trans ?_ (or_iff_left hadded').symm
    constructor
    · intro hvis
      obtain ⟨i, st, hrow, hlive⟩ := (h.visible_iff_live hrun haff hs).mp hvis
      refine ⟨(hbefore.mp hvis).1, ?_⟩
      intro hdone
      exact Set.eq_empty_iff_forall_notMem.mp hdone.2 i ⟨st, hrow, hlive⟩
    · intro hleft
      obtain ⟨-, hdone⟩ := hleft
      rw [h.visible_iff_live hrun haff hs]
      by_contra hnone
      refine hdone ⟨rfl, Set.eq_empty_iff_forall_notMem.mpr ?_⟩
      intro i hi
      exact hnone ⟨i, hi⟩
  · intro _ _ _ i
    exact Iff.rfl

/-- The rows a running delete visits are live. -/
theorem live_of_visiting (h : Inv top c) {i : Nat} {st : Stamp} (hrun : c.Running k)
    (hi : i ∈ (c.txn k).visiting) (hrow : c.row i = some st) : c.Live (some k) st := by
  obtain ⟨hdel, hadd⟩ := h.visits k i hi
  obtain ⟨st', hrow', hlive⟩ := (h.live k hrun hdel hadd i).mp hi
  obtain rfl : st = st' := Option.some.inj (hrow.symm.trans hrow')
  exact hlive

/-- A running transaction has not stamped a row it sees live. -/
theorem shows_stamp (hrun : c.Running k) {st : Stamp} (hlive : c.Live (some k) st)
    (hown : own = none ∨ own = some k ∧ s < k) :
    c.Shows own s { st with deleted := k } ↔ c.Shows own s st := by
  obtain ⟨-, hdeleted⟩ := hlive
  refine and_congr_right fun _ => and_congr_right fun _ => ?_
  rcases hown with rfl | ⟨rfl, hs⟩
  · have hseen : ∀ j, c.Seen none j → c.Committed j := fun j hj =>
      hj.resolve_right nofun
    constructor
    · intro _ hj
      exact absurd (Or.inl (hseen _ hj)) hdeleted
    · intro _ hj
      exact absurd (hseen _ hj) hrun.not_committed
  · exact iff_of_true (fun _ => hs) (fun hj => absurd hj hdeleted)

theorem quiet_visit (hrun : c.Running k) (i : Nat) (st : Stamp) :
    c.Quiet (c.visit k i st) :=
  quiet_put _ hrun.not_committed hrun.not_committed

/-- The rows left to visit are the live ones. -/
theorem live_visit (h : Inv top c) {i : Nat} {st : Stamp} (hrun : c.Running k)
    (hi : i ∈ (c.txn k).visiting) (j : Nat) :
    j ∈ ((c.txn k).pass i).visiting ↔
      ∃ st', (c.visit k i st).row j = some st' ∧ (c.visit k i st).Live (some k) st' := by
  obtain ⟨hdel, hadd⟩ := h.visits k i hi
  have hquiet := quiet_visit hrun i st
  constructor
  · intro hj
    obtain ⟨hj, hji⟩ := hj
    obtain ⟨st', hrow, hlive⟩ := (h.live k hrun hdel hadd j).mp hj
    exact ⟨st', update_eq_some.mpr (Or.inr ⟨hji, hrow⟩), hquiet.live.mpr hlive⟩
  · intro hj
    obtain ⟨st', hrow, hlive⟩ := hj
    have hlive := hquiet.live.mp hlive
    rcases update_eq_some.mp hrow with ⟨-, rfl⟩ | ⟨hji, hrow⟩
    · exact absurd (Or.inr rfl) hlive.2
    · exact ⟨(h.live k hrun hdel hadd j).mpr ⟨st', hrow, hlive⟩, hji⟩

/-- A visiting delete keeps reading its own effect. -/
theorem own_visit (h : Inv top c) {i : Nat} {st : Stamp} (hrun : c.Running k)
    (hi : i ∈ (c.txn k).visiting) (hrow : c.row i = some st) :
    (c.visit k i st).Own k ((c.txn k).pass i) := by
  obtain ⟨hdel, hadd⟩ := h.visits k i hi
  have hexec : (c.txn k).Executed := Or.inl hdel
  have hlive := h.live_of_visiting hrun hi hrow
  have hown := h.own k hrun hexec
  have hquiet := quiet_visit hrun i st
  refine ⟨?_, ?_⟩
  · intro s hs
    rw [hquiet.visible_update hrow rfl (shows_stamp hrun hlive (Or.inr ⟨rfl, hs⟩)),
      hquiet.replay]
    exact hown.1 s hs
  · intro s hs
    have hpresent : c.Replay (k - 1) := by
      have hvis := (h.visible_iff_live hrun hexec.affects hs).mpr ⟨i, st, hrow, hlive⟩
      rcases (hown.2 s hs).mp hvis with hleft | hadded
      · exact hleft.1
      · rw [hadd] at hadded
        cases hadded
    have hle : ∀ j st', (c.visit k i st).row j = some st' → st'.created ≤ k ∧
        ((c.visit k i st).Seen (some k) st'.deleted → st'.deleted ≤ k) := by
      intro j st' hj
      rcases update_eq_some.mp hj with ⟨-, rfl⟩ | ⟨-, hj⟩
      · exact ⟨(h.marks_le hrun hexec.affects hrow).1, fun _ => le_rfl⟩
      · rw [hquiet.seen]
        exact h.marks_le hrun hexec.affects hj
    rw [visible_iff_live_of_le hle hs, hquiet.replay]
    have hnot : ¬ ((c.txn k).pass i).added = true := by
      show ¬ (c.txn k).added = true
      rw [hadd]
      decide
    rw [or_iff_left hnot, and_iff_right hpresent]
    simp only [← h.live_visit hrun hi]
    constructor
    · intro hleft hdone
      obtain ⟨j, hj⟩ := hleft
      exact Set.eq_empty_iff_forall_notMem.mp hdone.2 j hj
    · intro hdone
      by_contra hnone
      refine hdone ⟨hdel, Set.eq_empty_iff_forall_notMem.mpr ?_⟩
      intro j hj
      exact hnone ⟨j, hj⟩

/-- **A delete visits a row** and stamps it. -/
theorem visit (h : Inv top c) {i : Nat} {st : Stamp} (hrun : c.Running k)
    (hi : i ∈ (c.txn k).visiting) (hrow : c.row i = some st) :
    Inv top (c.visit k i st) := by
  obtain ⟨hdel, hadd⟩ := h.visits k i hi
  have hexec : (c.txn k).Executed := Or.inl hdel
  have hlive := h.live_of_visiting hrun hi hrow
  have hquiet := quiet_visit hrun i st
  refine h.put hrun.used (h.bounds k hrun.used) ?_
    (fun hcom => absurd hcom hrun.not_committed) ?_ (fun _ => Or.inl hexec)
    ?_ ?_ ?_ ?_ ?_ ?_
  · intro j _
    exact ⟨hdel, hadd⟩
  · intro _ _ j hj
    exact h.order k j hj hrun hexec.affects
  · intro j st' hj
    rcases update_eq_some.mp hj with ⟨-, rfl⟩ | ⟨-, hj⟩
    · refine ⟨(h.marks_put (t := (c.txn k).pass i) (fun he => he) hrow).1, Or.inr ?_⟩
      show ((c.put _ k _).txn k).Executed
      rw [txn_put_self]
      exact hexec
    · exact h.marks_put (t := (c.txn k).pass i) (fun he => he) hj
  · intro s
    show (c.visit k i st).Visible none s ↔ (c.visit k i st).Replay s
    rw [hquiet.visible_update hrow rfl (shows_stamp hrun hlive (Or.inl rfl)), hquiet.replay]
    exact h.value s
  · intro _ _
    exact h.own_visit hrun hi hrow
  · intro j hj hrun' hexec'
    exact absurd (h.alone hrun hexec hrun' hexec') hj
  · intro _ _ _ j
    exact h.live_visit hrun hi j
  · intro j hj hrun' hdel'
    exact absurd (h.alone hrun hexec hrun' (Or.inl hdel')) hj

theorem visible_install (hrun : c.Running k) {i : Nat} {pending : Bool}
    (hfree : c.row i = none) : (c.install top k i pending).Visible own s ↔
      c.Shows own s { created := k, deleted := top } ∨ c.Visible own s := by
  have hquiet : c.Quiet (c.install top k i pending) :=
    quiet_put _ hrun.not_committed hrun.not_committed
  unfold Visible
  simp only [hquiet.shows]
  simp only [Cell.install, row_put, update_eq_some]
  constructor
  · intro hvis
    obtain ⟨j, st, ⟨-, rfl⟩ | ⟨-, hrow⟩, hshows⟩ := hvis
    · exact Or.inl hshows
    · exact Or.inr ⟨j, st, hrow, hshows⟩
  · intro hvis
    rcases hvis with hshows | ⟨j, st, hrow, hshows⟩
    · exact ⟨i, _, Or.inl ⟨rfl, rfl⟩, hshows⟩
    · have hj : j ≠ i := by
        intro heq
        obtain rfl := heq
        rw [hfree] at hrow
        cases hrow
      exact ⟨j, st, Or.inr ⟨hj, hrow⟩, hshows⟩

/-- **A row is added** where no row is live. -/
theorem install (h : Inv top c) {i : Nat} {pending : Bool} (hrun : c.Running k)
    (hpending : (c.txn k).pending = true) (hidle : (c.txn k).visiting = ∅)
    (hfirst : c.First k) (hfree : c.row i = none) :
    Inv top (c.install top k i pending) := by
  have haff : (c.txn k).Affects := Or.inl hpending
  have hown := h.own_of_affects hrun haff
  have hquiet : c.Quiet (c.install top k i pending) :=
    quiet_put _ hrun.not_committed hrun.not_committed
  refine h.put hrun.used (h.bounds k hrun.used) ?_
    (fun hcom => absurd hcom hrun.not_committed) ?_ (fun _ => Or.inr hfirst)
    ?_ ?_ ?_ ?_ ?_ ?_
  · intro j hj
    rw [Txn.add, hidle] at hj
    exact absurd hj (Set.notMem_empty j)
  · intro _ _ j hj
    exact h.order k j hj hrun haff
  · intro j st hj
    rcases update_eq_some.mp hj with ⟨-, rfl⟩ | ⟨-, hj⟩
    · refine ⟨?_, Or.inl rfl⟩
      rw [txn_put_self]
      exact Or.inr rfl
    · exact h.marks_put (t := (c.txn k).add pending) (fun _ => Or.inr rfl) hj
  · intro s
    show (c.install top k i pending).Visible none s ↔ (c.install top k i pending).Replay s
    have hhidden : ¬ c.Shows none s { created := k, deleted := top } := by
      intro hshows
      exact hrun.not_committed (hshows.1.resolve_right nofun)
    rw [visible_install hrun hfree, or_iff_right hhidden, hquiet.replay]
    exact h.value s
  · intro _ _
    refine ⟨?_, ?_⟩
    · intro s hs
      have hhidden : ¬ c.Shows (some k) s { created := k, deleted := top } := by
        intro hshows
        exact absurd hshows.2.1 (Nat.not_le_of_lt hs)
      show (c.install top k i pending).Visible (some k) s ↔
        (c.install top k i pending).Replay s
      rw [visible_install hrun hfree, or_iff_right hhidden, hquiet.replay]
      exact hown.1 s hs
    · intro s hs
      refine iff_of_true ?_ (Or.inr rfl)
      exact (visible_install hrun hfree).mpr
        (Or.inl ⟨Or.inr rfl, hs, fun hseen => absurd hseen (h.not_seen_top hrun)⟩)
  · intro j hj hrun' hexec'
    exact absurd (h.alone_of_first hrun haff hfirst hrun' hexec') hj
  · intro _ _ hadded
    cases hadded
  · intro j hj hrun' hdel'
    exact absurd (h.alone_of_first hrun haff hfirst hrun' (Or.inl hdel')) hj

/-- **A row is kept** where one is live already. -/
theorem keep (h : Inv top c) {j : Nat} {st : Stamp} {pending : Bool} (hrun : c.Running k)
    (hpending : (c.txn k).pending = true) (hidle : (c.txn k).visiting = ∅)
    (hfirst : c.First k) (hrow : c.row j = some st) (hlive : c.Live (some k) st) :
    Inv top (c.put c.row k ((c.txn k).add pending)) := by
  have haff : (c.txn k).Affects := Or.inl hpending
  refine h.put_quiet hrun.not_committed hrun.not_committed hrun.used
    (h.bounds k hrun.used) ?_ ?_ (fun _ => Or.inr hfirst) (fun _ => Or.inr rfl)
    ?_ ?_
  · intro i hi
    rw [Txn.add, hidle] at hi
    exact absurd hi (Set.notMem_empty i)
  · intro _ _ i hi
    exact h.order k i hi hrun haff
  · intro _ _
    refine ⟨(h.own_of_affects hrun haff).1, ?_⟩
    intro s hs
    have hvis := (h.visible_iff_live hrun haff hs).mpr ⟨j, st, hrow, hlive⟩
    exact iff_of_true hvis (Or.inr rfl)
  · intro _ _ hadded
    cases hadded

/-- **A transaction rolls back.** -/
theorem rollback (h : Inv top c) (hrun : c.Running k) :
    Inv top (c.put c.row k ((c.txn k).finish .aborted)) :=
  h.put_quiet hrun.not_committed (by exact nofun) (by exact nofun)
    (h.bounds k hrun.used) (h.visits k) (by exact nofun)
    (fun hexec => Or.inl hexec) (fun hexec => hexec) (by exact nofun) (by exact nofun)

end Inv

/-! ### Commit -/

theorem txn_commit_self : (c.commit k).txn k = (c.txn k).finish .committed :=
  txn_put_self ..

theorem txn_commit_ne (h : j ≠ k) : (c.commit k).txn j = c.txn j :=
  txn_put_ne _ _ _ h

theorem committed_commit : (c.commit k).Committed j ↔ c.Committed j ∨ j = k := by
  unfold Committed
  by_cases hj : j = k
  · subst hj
    rw [txn_commit_self]
    exact iff_of_true rfl (Or.inr rfl)
  · rw [txn_commit_ne hj, or_iff_left hj]

theorem executed_commit : ((c.commit k).txn j).Executed ↔ (c.txn j).Executed := by
  by_cases hj : j = k
  · subst hj
    rw [txn_commit_self]
    exact Iff.rfl
  · rw [txn_commit_ne hj]

/-- After its commit the others read what `k` read. -/
theorem visible_commit : (c.commit k).Visible none s ↔ c.Visible (some k) s := by
  have hseen : ∀ j, (c.commit k).Seen none j ↔ c.Seen (some k) j := by
    intro j
    unfold Seen
    rw [committed_commit, or_iff_left nofun, Option.some.injEq, eq_comm]
  unfold Visible Shows
  simp only [hseen]
  exact Iff.rfl

theorem replay_commit_old (hs : s < k) : (c.commit k).Replay s ↔ c.Replay s := by
  apply replay_congr
  intro j hj
  have hne : j ≠ k := by omega
  rw [committed_commit, or_iff_left hne, txn_commit_ne hne]
  exact ⟨Iff.rfl, Iff.rfl⟩

theorem seen_commit_ne (hj : j ≠ k) : (c.commit k).Seen own j ↔ c.Seen own j := by
  unfold Seen
  rw [committed_commit, or_iff_left hj]

theorem replay_commit_idle (hexec : ¬ (c.txn k).Executed) (hcom : ¬ c.Committed k) :
    (c.commit k).Replay s ↔ c.Replay s := by
  apply replay_congr
  intro j _
  by_cases hj : j = k
  · subst hj
    rw [txn_commit_self]
    constructor
    · exact iff_of_false (fun h => hexec (Or.inl h.2)) (fun h => hcom h.1)
    · exact iff_of_false (fun h => hexec (Or.inr h.2)) (fun h => hcom h.1)
  · rw [committed_commit, or_iff_left hj, txn_commit_ne hj]
    exact ⟨Iff.rfl, Iff.rfl⟩

namespace Inv

/-- The committed transaction's effect takes its place in the replay. -/
theorem replay_commit_new (h : Inv top c) (hrun : c.Running k)
    (hexec : (c.txn k).Executed) (hs : k ≤ s) : (c.commit k).Replay s ↔
      (c.Replay (k - 1) ∧ ¬ (c.txn k).deleted = true) ∨ (c.txn k).added = true := by
  have hlater : ∀ j, k < j → (c.commit k).Committed j →
      ¬ ((c.commit k).txn j).Executed := by
    intro j hj _
    rw [executed_commit]
    exact h.order k j hj hrun hexec.affects
  obtain ⟨hpos, -⟩ := h.bounds k hrun.used
  obtain ⟨n, rfl⟩ : ∃ n, k = n + 1 := ⟨k - 1, by omega⟩
  rw [replay_idle hs hlater, Replay, replay_commit_old (Nat.lt_succ_self n),
    txn_commit_self, committed_commit, and_iff_right (Or.inr rfl), and_iff_right (Or.inr rfl)]
  exact Iff.rfl

theorem value_commit (h : Inv top c) (hrun : c.Running k)
    (hidle : (c.txn k).visiting = ∅) : (c.commit k).Visible none s ↔
      (c.commit k).Replay s := by
  rw [visible_commit]
  by_cases hexec : (c.txn k).Executed
  · have hown := h.own k hrun hexec
    rcases Nat.lt_or_ge s k with hs | hs
    · rw [replay_commit_old hs]
      exact hown.1 s hs
    · rw [h.replay_commit_new hrun hexec hs, hown.2 s hs, Txn.Deleted, and_iff_left hidle]
  · rw [h.visible_unmarked hrun hexec, replay_commit_idle hexec hrun.not_committed]
    exact h.value s

/-- A commit that did nothing to the value changes no reader. -/
theorem visible_commit_idle (h : Inv top c) (hrun : c.Running k)
    (hexec : ¬ (c.txn k).Executed) :
    (c.commit k).Visible own s ↔ c.Visible own s := by
  refine exists_congr fun i => exists_congr fun st => and_congr_right fun hrow => ?_
  have hne := h.unmarked hrun hexec hrow
  unfold Shows
  rw [seen_commit_ne hne.1, seen_commit_ne hne.2]

/-- **A transaction commits.** -/
theorem commit (h : Inv top c) (hrun : c.Running k) (hdone : (c.txn k).pending = false)
    (hidle : (c.txn k).visiting = ∅) : Inv top (c.commit k) := by
  refine h.put (by exact nofun) (h.bounds k hrun.used) (h.visits k)
    (fun _ => hdone) (by exact nofun) (fun hexec => Or.inl hexec)
    (fun i st => h.marks_put (t := (c.txn k).finish .committed) (fun hexec => hexec))
    (fun s => h.value_commit hrun hidle) (by exact nofun) ?_ (by exact nofun) ?_
  · intro j hj hrun' hexec'
    have hexec : ¬ (c.txn k).Executed := fun hexec =>
      hj (h.alone hrun hexec hrun' hexec')
    have hown := h.own j hrun' hexec'
    show (c.commit k).Own j _
    unfold Own
    simp only [h.visible_commit_idle hrun hexec,
      replay_commit_idle hexec hrun.not_committed]
    exact hown
  · intro j hj hrun' hdel' hadd' i
    have hexec : ¬ (c.txn k).Executed := fun hexec =>
      hj (h.alone hrun hexec hrun' (Or.inl hdel'))
    rw [h.live j hrun' hdel' hadd' i]
    refine exists_congr fun st => and_congr_right fun hrow => ?_
    have hne := h.unmarked hrun hexec hrow
    show c.Live _ _ ↔ (c.commit k).Live _ _
    rw [Live, Live, seen_commit_ne hne.1, seen_commit_ne hne.2]

/-- **Step lemma.** -/
theorem step (h : Inv top c) (hstep : Step top c c') : Inv top c' := by
  cases hstep with
  | begin n pending hpos htop hfresh => exact h.begin hpos htop hfresh
  | delete k pending hrun hpending hadded hidle hfirst =>
      exact h.delete hrun hpending hadded hfirst
  | visit k i st hrun hi hrow hlive => exact h.visit hrun hi hrow
  | skip k i st hrun hi hrow hgone =>
      exact absurd (h.live_of_visiting hrun hi hrow) hgone
  | add k i pending hrun hpending hidle hfirst hfree habsent =>
      exact h.install hrun hpending hidle hfirst hfree
  | keep k j st pending hrun hpending hidle hfirst hrow hlive =>
      exact h.keep hrun hpending hidle hfirst hrow hlive
  | commit k hrun hdone hidle => exact h.commit hrun hdone hidle
  | rollback k hrun => exact h.rollback hrun

/-- **A cell nobody has written.** -/
theorem new (top : Nat) : Inv top Cell.new := by
  have hreplay : ∀ s, ¬ Cell.new.Replay s := by
    intro s
    induction s with
    | zero => exact id
    | succ s ih =>
        intro h
        rcases h with h | h
        · exact ih h.1
        · cases h.1
  exact {
    unused := fun _ _ => rfl
    bounds := fun _ hk => absurd rfl hk
    visits := fun _ i hi => absurd hi (Set.notMem_empty i)
    done := fun _ hk => by cases hk
    order := fun _ _ _ hk => by cases hk
    marks := fun _ _ hrow => by cases hrow
    value := by
      intro s
      refine iff_of_false ?_ (hreplay s)
      intro hparts
      obtain ⟨i, st, hrow, -⟩ := hparts
      cases hrow
    own := fun _ hk => by cases hk
    live := fun _ hk => by cases hk }

end Inv

end Cell

end Foundations
