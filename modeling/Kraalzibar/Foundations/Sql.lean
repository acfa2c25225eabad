import Mathlib.Data.List.GetD

/-!
# Conjunctive SQL conditions

The conditions of a `WHERE` clause with numbered placeholders, under SQL's
three-valued logic: a comparison with `NULL` is unknown, and a row is selected
only if the conjunction is true.

* `Condition.eval` — one condition on one row, with its bound values;
* `selects` — the conjunction is true;
* `selects_append_binds` — binding further values changes no condition that
  uses the earlier placeholders only.
-/

namespace Foundations.Sql

inductive Value where
  | null
  | text (s : String)
  | int (n : Int)
deriving DecidableEq

/-- A truth value; `none` is SQL's unknown. -/
abbrev Truth := Option Bool

/-- Three-valued conjunction. -/
def Truth.and : Truth → Truth → Truth
  | some false, _ => some false
  | _, some false => some false
  | some true, some true => some true
  | _, _ => none

theorem Truth.and_eq_true {a b : Truth} :
    a.and b = some true ↔ a = some true ∧ b = some true := by
  rcases a with _ | (_ | _) <;> rcases b with _ | (_ | _) <;> simp [Truth.and]

/-- A comparison is unknown when an operand is `NULL`. -/
def compareWith (test : Ordering → Bool) : Value → Value → Truth
  | .text s, .text t => some (test (compare s t))
  | .int m, .int n => some (test (compare m n))
  | _, _ => none

/-- The conditions a statement is built from; `k` numbers the placeholder
`$k`. -/
inductive Condition (Column : Type) where
  | eq (column : Column) (k : Nat)
  | le (column : Column) (k : Nat)
  | gt (column : Column) (k : Nat)
  | isNull (column : Column)

variable {Column : Type}

/-- The value bound to `$k`. -/
def bound (binds : List Value) (k : Nat) : Value :=
  binds.getD (k - 1) .null

/-- The truth value of a condition on a row. -/
def Condition.eval (row : Column → Value) (binds : List Value) : Condition Column → Truth
  | .eq column k => compareWith (fun o => o == .eq) (row column) (bound binds k)
  | .le column k => compareWith (fun o => o != .gt) (row column) (bound binds k)
  | .gt column k => compareWith (fun o => o == .gt) (row column) (bound binds k)
  | .isNull column => some (decide (row column = .null))

/-- The placeholder a condition uses. -/
def Condition.placeholder : Condition Column → Option Nat
  | .eq _ k => some k
  | .le _ k => some k
  | .gt _ k => some k
  | .isNull _ => none

/-- `c1 AND c2 AND …` on a row. -/
def conjunction (row : Column → Value) (binds : List Value)
    (conditions : List (Condition Column)) : Truth :=
  (conditions.map (Condition.eval row binds)).foldr Truth.and (some true)

/-- The row is selected: the conjunction is true, not false and not unknown. -/
def selects (row : Column → Value) (binds : List Value)
    (conditions : List (Condition Column)) : Bool :=
  decide (conjunction row binds conditions = some true)

variable {row : Column → Value} {binds : List Value} {conditions : List (Condition Column)}

/-- A row is selected exactly when every condition is true on it. -/
theorem selects_iff : selects row binds conditions = true ↔
    ∀ c ∈ conditions, c.eval row binds = some true := by
  rw [selects, decide_eq_true_eq, conjunction]
  induction conditions with
  | nil => simp
  | cons c conditions ih =>
      rw [List.map_cons, List.foldr_cons, Truth.and_eq_true, ih, List.forall_mem_cons]

theorem selects_append (more : List (Condition Column)) :
    selects row binds (conditions ++ more) = true ↔
      selects row binds conditions = true ∧ selects row binds more = true := by
  simp only [selects_iff, List.forall_mem_append]

/-- Binding further values changes no condition on the earlier placeholders. -/
theorem selects_append_binds (more : List Value)
    (hused : ∀ c ∈ conditions, ∀ k ∈ c.placeholder, 0 < k ∧ k ≤ binds.length) :
    selects row (binds ++ more) conditions = selects row binds conditions := by
  have hbound : ∀ k, 0 < k → k ≤ binds.length → bound (binds ++ more) k = bound binds k := by
    intro k hpos hle
    unfold bound
    rw [List.getD_append _ _ _ _ (by omega)]
  have heval : ∀ c ∈ conditions, c.eval row (binds ++ more) = c.eval row binds := by
    intro c hc
    have hk := hused c hc
    cases c with
    | eq column k => simp only [Condition.eval, hbound k (hk k rfl).1 (hk k rfl).2]
    | le column k => simp only [Condition.eval, hbound k (hk k rfl).1 (hk k rfl).2]
    | gt column k => simp only [Condition.eval, hbound k (hk k rfl).1 (hk k rfl).2]
    | isNull column => rfl
  rw [Bool.eq_iff_iff, selects_iff, selects_iff]
  exact forall₂_congr fun c hc => by rw [heval c hc]

theorem compareWith_text_eq {v : Value} {s : String} :
    compareWith (fun o => o == .eq) v (.text s) = some true ↔ v = .text s := by
  cases v <;> simp [compareWith]

theorem compareWith_int_eq {m n : Int} :
    compareWith (fun o => o == .eq) (.int m) (.int n) = some true ↔ m = n := by
  simp [compareWith]

theorem compareWith_int_le {m n : Int} :
    compareWith (fun o => o != .gt) (.int m) (.int n) = some true ↔ m ≤ n := by
  simp [compareWith, Int.compare_eq_gt]

theorem compareWith_int_gt {m n : Int} :
    compareWith (fun o => o == .gt) (.int m) (.int n) = some true ↔ n < m := by
  simp [compareWith, Int.compare_eq_gt]

end Foundations.Sql
