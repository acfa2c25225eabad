import Mathlib.Data.List.Induction
import Mathlib.Data.List.Nodup
import Mathlib.Data.Set.Basic

/-!
# Versioned rows

A multiversion store never removes a value.  Each row carries the token of the
write that created it and the token of the write that deleted it, or the
sentinel `top` while it is live.  A read at token `s` sees the rows created by
`s` and not yet deleted at `s`.

* `visible` — the values read at a token;
* `commit` — one write: retire the live rows a predicate selects, then install
  the values that have no live row;
* `visible_commit_old` — a write does not change what earlier tokens read;
* `visible_commit_new` — at its own token it reads the previous contents with
  the batch applied;
* `Records` — the rows hold a whole history of contents, one for each token.
-/

namespace Foundations

/-- A stored value with the tokens of the writes that created and deleted it. -/
structure Version (α : Type) where
  value : α
  created : Nat
  deleted : Nat
deriving DecidableEq, Repr

namespace Version

variable {α : Type}

/-- Created at or before `s`, and deleted only after it. -/
def visibleAt (v : Version α) (s : Nat) : Bool :=
  decide (v.created ≤ s) && decide (s < v.deleted)

/-- Not deleted by any write. -/
def live (top : Nat) (v : Version α) : Bool :=
  decide (v.deleted = top)

@[simp] theorem visibleAt_iff (v : Version α) (s : Nat) :
    v.visibleAt s = true ↔ v.created ≤ s ∧ s < v.deleted := by
  simp [visibleAt]

@[simp] theorem live_iff (top : Nat) (v : Version α) :
    v.live top = true ↔ v.deleted = top := by
  simp [live]

/-- The values a read at token `s` sees, in row order. -/
def visible (rows : List (Version α)) (s : Nat) : List α :=
  (rows.filter (fun v => v.visibleAt s)).map value

/-- Stamp every live row whose value `p` selects with the deleting token. -/
def retire (top tx : Nat) (p : α → Bool) (rows : List (Version α)) :
    List (Version α) :=
  rows.map fun v => if v.live top && p v.value then { v with deleted := tx } else v

/-- Add a live row for `x`, unless there is one. -/
def install [DecidableEq α] (top tx : Nat) (rows : List (Version α)) (x : α) :
    List (Version α) :=
  if rows.any (fun v => v.live top && decide (v.value = x)) then rows
  else rows ++ [{ value := x, created := tx, deleted := top }]

/-- One write with token `tx`: retire what `p` selects, then install `xs`. -/
def commit [DecidableEq α] (top tx : Nat) (p : α → Bool) (xs : List α)
    (rows : List (Version α)) : List (Version α) :=
  xs.foldl (install top tx) (retire top tx p rows)

/-- No row was stamped by a write after `n`. -/
def Bounded (top n : Nat) (rows : List (Version α)) : Prop :=
  ∀ v ∈ rows, v.created ≤ n ∧ (v.deleted = top ∨ v.deleted ≤ n)

end Version

/-! ## Batches on plain lists -/

/-- Append `x` unless it is present. -/
def insertLast {α : Type} [DecidableEq α] (l : List α) (x : α) : List α :=
  if x ∈ l then l else l ++ [x]

/-- Drop what `p` selects, then add each of `xs` that is not present. -/
def applyBatch {α : Type} [DecidableEq α] (p : α → Bool) (xs : List α)
    (l : List α) : List α :=
  xs.foldl insertLast (l.filter (fun x => !p x))

section Batch

variable {α : Type} [DecidableEq α] {p : α → Bool} {l xs : List α} {x y : α}

@[simp] theorem mem_insertLast : y ∈ insertLast l x ↔ y ∈ l ∨ y = x := by
  unfold insertLast
  by_cases hx : x ∈ l
  · rw [if_pos hx]
    constructor
    · exact Or.inl
    · intro h
      rcases h with h | rfl
      · exact h
      · exact hx
  · rw [if_neg hx, List.mem_append, List.mem_singleton]

theorem nodup_insertLast (h : l.Nodup) : (insertLast l x).Nodup := by
  unfold insertLast
  by_cases hx : x ∈ l
  · rwa [if_pos hx]
  · rw [if_neg hx]
    exact List.Nodup.append h (List.nodup_singleton x)
      (List.disjoint_singleton.mpr hx)

theorem mem_foldl_insertLast : y ∈ xs.foldl insertLast l ↔ y ∈ l ∨ y ∈ xs := by
  induction xs generalizing l with
  | nil => simp
  | cons x xs ih =>
      rw [List.foldl_cons, ih, mem_insertLast, List.mem_cons, or_assoc]

theorem nodup_foldl_insertLast (h : l.Nodup) : (xs.foldl insertLast l).Nodup := by
  induction xs generalizing l with
  | nil => exact h
  | cons x xs ih => exact ih (nodup_insertLast h)

/-- A batch keeps what `p` does not select, and adds `xs`. -/
theorem mem_applyBatch : y ∈ applyBatch p xs l ↔ (y ∈ l ∧ p y = false) ∨ y ∈ xs := by
  simp [applyBatch, mem_foldl_insertLast]

theorem nodup_applyBatch (h : l.Nodup) : (applyBatch p xs l).Nodup :=
  nodup_foldl_insertLast (h.filter _)

end Batch

namespace Version

variable {α : Type} {rows : List (Version α)} {p : α → Bool} {top tx n s : Nat}

theorem mem_visible {x : α} : x ∈ visible rows s ↔
    ∃ v ∈ rows, (v.created ≤ s ∧ s < v.deleted) ∧ v.value = x := by
  simp [visible, and_assoc]

theorem visible_append (rows' : List (Version α)) :
    visible (rows ++ rows') s = visible rows s ++ visible rows' s := by
  simp [visible]

theorem visible_cons (v : Version α) :
    visible (v :: rows) s = (if v.visibleAt s then [v.value] else []) ++ visible rows s := by
  by_cases h : v.visibleAt s = true <;> simp [visible, h]

/-! ## Retiring rows -/

/-- Retiring at `tx` is not seen by reads before `tx`: a stamped row was live,
so it stays visible up to its new end. -/
theorem visible_retire_old (hs : s < tx) (htop : tx ≤ top) :
    visible (retire top tx p rows) s = visible rows s := by
  induction rows with
  | nil => rfl
  | cons v rows ih =>
      have hhead : (if v.live top && p v.value then { v with deleted := tx } else v
          : Version α).visibleAt s = v.visibleAt s := by
        by_cases hv : (v.live top && p v.value) = true
        · have hlive : v.deleted = top := by
            rw [Bool.and_eq_true, live_iff] at hv
            exact hv.1
          rw [if_pos hv, Bool.eq_iff_iff, visibleAt_iff, visibleAt_iff]
          show v.created ≤ s ∧ s < tx ↔ _
          omega
        · rw [if_neg hv]
      have hvalue : (if v.live top && p v.value then { v with deleted := tx } else v
          : Version α).value = v.value := by
        split <;> rfl
      have hretire : retire top tx p (v :: rows) =
          (if v.live top && p v.value then { v with deleted := tx } else v) ::
            retire top tx p rows := rfl
      rw [hretire, visible_cons, visible_cons, hhead, hvalue, ih]

/-- At the retiring token, what `p` selects is gone from the previous contents. -/
theorem visible_retire_new (hrows : Bounded top n rows) (hn : n < tx)
    (htop : tx < top) :
    visible (retire top tx p rows) tx =
      (visible rows n).filter (fun x => !p x) := by
  induction rows with
  | nil => rfl
  | cons v rows ih =>
      have hv := hrows v List.mem_cons_self
      have ih := ih (fun w hw => hrows w (List.mem_cons_of_mem v hw))
      have hretire : retire top tx p (v :: rows) =
          (if v.live top && p v.value then { v with deleted := tx } else v) ::
            retire top tx p rows := rfl
      simp only [visible] at ih
      by_cases hlive : v.deleted = top
      · have hnow : v.visibleAt n = true := by
          rw [visibleAt_iff]
          omega
        by_cases hp : p v.value = true
        · have hgone : ¬ ({ v with deleted := tx } : Version α).visibleAt tx = true := by
            rw [visibleAt_iff]
            show ¬ (v.created ≤ tx ∧ tx < tx)
            omega
          rw [hretire, if_pos (by simp [hlive, hp])]
          simp [visible, hgone, hnow, hp, ih]
        · have hkept : v.visibleAt tx = true := by
            rw [visibleAt_iff]
            omega
          rw [hretire, if_neg (by simp [hp])]
          simp [visible, hkept, hnow, hp, ih]
      · have hold : ¬ v.visibleAt n = true := by
          rw [visibleAt_iff]
          omega
        have hold' : ¬ v.visibleAt tx = true := by
          rw [visibleAt_iff]
          omega
        rw [hretire, if_neg (by simp [hlive])]
        simp [visible, hold, hold', ih]

theorem bounded_retire (hrows : Bounded top n rows) (hn : n ≤ tx) :
    Bounded top tx (retire top tx p rows) := by
  intro v hv
  obtain ⟨w, hw, rfl⟩ := List.mem_map.mp hv
  have hbound := hrows w hw
  split
  · exact ⟨by show w.created ≤ tx; omega, Or.inr le_rfl⟩
  · omega

/-! ## Installing rows -/

section Install

variable [DecidableEq α] {x : α} {xs : List α}

theorem visible_install_old (hs : s < tx) :
    visible (install top tx rows x) s = visible rows s := by
  unfold install
  split
  · rfl
  · have hnew : visible [({ value := x, created := tx, deleted := top } : Version α)] s
        = [] := by
      have h : ¬ tx ≤ s := by omega
      simp [visible, h]
    rw [visible_append, hnew, List.append_nil]

/-- In bounded rows, the values with a live row are those visible now. -/
theorem any_live_iff (hrows : Bounded top tx rows) (htop : tx < top) :
    rows.any (fun v => v.live top && decide (v.value = x)) = true ↔
      x ∈ visible rows tx := by
  rw [List.any_eq_true, mem_visible]
  constructor
  · intro h
    obtain ⟨v, hv, hx⟩ := h
    have hbound := hrows v hv
    rw [Bool.and_eq_true, live_iff, decide_eq_true_eq] at hx
    exact ⟨v, hv, by omega, hx.2⟩
  · intro h
    obtain ⟨v, hv, hvis, hx⟩ := h
    have hbound := hrows v hv
    refine ⟨v, hv, ?_⟩
    rw [Bool.and_eq_true, live_iff, decide_eq_true_eq]
    exact ⟨by omega, hx⟩

theorem visible_install_new (hrows : Bounded top tx rows) (htop : tx < top) :
    visible (install top tx rows x) tx = insertLast (visible rows tx) x := by
  unfold install insertLast
  by_cases hx : x ∈ visible rows tx
  · rw [if_pos ((any_live_iff hrows htop).mpr hx), if_pos hx]
  · have hnew : visible [({ value := x, created := tx, deleted := top } : Version α)] tx
        = [x] := by
      simp [visible, htop]
    rw [if_neg (fun h => hx ((any_live_iff hrows htop).mp h)), if_neg hx,
      visible_append, hnew]

theorem bounded_install (hrows : Bounded top tx rows) :
    Bounded top tx (install top tx rows x) := by
  unfold install
  split
  · exact hrows
  · intro v hv
    rcases List.mem_append.mp hv with hv | hv
    · exact hrows v hv
    · rw [List.mem_singleton] at hv
      subst hv
      exact ⟨le_rfl, Or.inl rfl⟩

theorem visible_foldl_install_old (hs : s < tx) :
    visible (xs.foldl (install top tx) rows) s = visible rows s := by
  induction xs generalizing rows with
  | nil => rfl
  | cons x xs ih => rw [List.foldl_cons, ih, visible_install_old hs]

theorem bounded_foldl_install (hrows : Bounded top tx rows) :
    Bounded top tx (xs.foldl (install top tx) rows) := by
  induction xs generalizing rows with
  | nil => exact hrows
  | cons x xs ih => exact ih (bounded_install hrows)

theorem visible_foldl_install_new (hrows : Bounded top tx rows) (htop : tx < top) :
    visible (xs.foldl (install top tx) rows) tx =
      xs.foldl insertLast (visible rows tx) := by
  induction xs generalizing rows with
  | nil => rfl
  | cons x xs ih =>
      rw [List.foldl_cons, List.foldl_cons, ih (bounded_install hrows),
        visible_install_new hrows htop]

/-! ## One write -/

/-- **Immutability.**  A write does not change what any earlier token reads. -/
theorem visible_commit_old (hs : s < tx) (htop : tx ≤ top) :
    visible (commit top tx p xs rows) s = visible rows s := by
  unfold commit
  rw [visible_foldl_install_old hs, visible_retire_old hs htop]

/-- **Effect.**  At its own token a write reads the previous contents with the
batch applied. -/
theorem visible_commit_new (hrows : Bounded top n rows) (hn : n < tx)
    (htop : tx < top) :
    visible (commit top tx p xs rows) tx = applyBatch p xs (visible rows n) := by
  unfold commit applyBatch
  rw [visible_foldl_install_new (bounded_retire hrows (by omega)) htop,
    visible_retire_new hrows hn htop]

theorem bounded_commit (hrows : Bounded top n rows) (hn : n ≤ tx) :
    Bounded top tx (commit top tx p xs rows) :=
  bounded_foldl_install (bounded_retire hrows hn)

end Install

/-! ## Histories -/

/-- The rows hold the history `L`: a read at any token `s ≤ n` sees `L s`. -/
structure Records (top n : Nat) (rows : List (Version α)) (L : Nat → List α) :
    Prop where
  bounded : Bounded top n rows
  visible_eq : ∀ s ≤ n, visible rows s = L s

theorem Records.nil (top : Nat) : Records top 0 ([] : List (Version α)) (fun _ => []) where
  bounded := by
    intro v hv
    cases hv
  visible_eq := fun _ _ => rfl

/-- **A write extends the history** by one entry and keeps every earlier one. -/
theorem Records.commit [DecidableEq α] {L L' : Nat → List α} {xs : List α}
    (h : Records top n rows L) (htop : n + 1 < top) (hold : ∀ s ≤ n, L' s = L s)
    (hnew : L' (n + 1) = applyBatch p xs (L n)) :
    Records top (n + 1) (commit top (n + 1) p xs rows) L' where
  bounded := bounded_commit h.bounded (Nat.le_succ n)
  visible_eq := by
    intro s hs
    rcases Nat.lt_or_eq_of_le hs with hlt | rfl
    · rw [visible_commit_old hlt htop.le, h.visible_eq s (by omega), hold s (by omega)]
    · rw [visible_commit_new h.bounded (Nat.lt_succ_self n) htop,
        h.visible_eq n le_rfl, hnew]

end Version

/-! ## The history of a sequence of batches -/

/-- A batch of deletions, given by a predicate, and additions. -/
structure Batch (α : Type) where
  deletes : α → Bool
  adds : List α

namespace Batch

variable {α : Type}

/-- The contents at token `s` when the batch of each token is `b`, in token order. -/
def replay (b : Nat → Batch α) : Nat → Set α
  | 0 => ∅
  | s + 1 => {x ∈ replay b s | (b (s + 1)).deletes x = false} ∪ {x | x ∈ (b (s + 1)).adds}

theorem mem_replay_succ {b : Nat → Batch α} {s : Nat} {x : α} :
    x ∈ replay b (s + 1) ↔
      (x ∈ replay b s ∧ (b (s + 1)).deletes x = false) ∨ x ∈ (b (s + 1)).adds :=
  Iff.rfl

variable [DecidableEq α]

/-- The contents after the first `s` batches, in the order reads return them. -/
def contents (batches : List (Batch α)) (s : Nat) : List α :=
  (batches.take s).foldl (fun l b => applyBatch b.deletes b.adds l) []

/-- The contents after the first `s` batches, as a set: each batch removes what
it deletes from the previous set and adds its additions. -/
def history (batches : List (Batch α)) (s : Nat) : Set α :=
  (batches.take s).foldl
    (fun D b => {x ∈ D | b.deletes x = false} ∪ {x | x ∈ b.adds}) ∅

variable {batches : List (Batch α)} {b : Batch α} {s : Nat}

theorem contents_concat_old (hs : s ≤ batches.length) :
    contents (batches ++ [b]) s = contents batches s := by
  unfold contents
  rw [List.take_append_of_le_length hs]

theorem contents_concat_new :
    contents (batches ++ [b]) (batches.length + 1) =
      applyBatch b.deletes b.adds (contents batches batches.length) := by
  simp [contents, List.take_of_length_le]

omit [DecidableEq α] in
/-- What no later batch deletes stays. -/
theorem mem_history_of_kept {s' : Nat} {x : α} (hle : s ≤ s')
    (hkept : ∀ b ∈ (batches.take s').drop s, b.deletes x = false)
    (h : x ∈ history batches s) : x ∈ history batches s' := by
  have hsplit : batches.take s' = batches.take s ++ (batches.take s').drop s := by
    have htake : batches.take s = (batches.take s').take s := by
      rw [List.take_take, Nat.min_eq_left hle]
    rw [htake, List.take_append_drop]
  unfold history at h ⊢
  rw [hsplit, List.foldl_append]
  generalize (batches.take s).foldl _ _ = D at h
  generalize (batches.take s').drop s = later at hkept
  induction later generalizing D with
  | nil => exact h
  | cons b later ih =>
      refine ih _ (Or.inl ⟨h, hkept b List.mem_cons_self⟩) ?_
      exact fun c hc => hkept c (List.mem_cons_of_mem _ hc)

/-- **The list and the set of a history agree**, and the list repeats nothing. -/
theorem nodup_contents_and_mem :
    (contents batches s).Nodup ∧ ∀ x, x ∈ contents batches s ↔ x ∈ history batches s := by
  unfold contents history
  induction batches.take s using List.reverseRecOn with
  | nil => simp
  | append_singleton bs b ih =>
      rw [List.foldl_append, List.foldl_append]
      refine ⟨nodup_applyBatch ih.1, ?_⟩
      intro x
      show x ∈ applyBatch _ _ _ ↔ _
      rw [mem_applyBatch, ih.2]
      rfl

end Batch

end Foundations
