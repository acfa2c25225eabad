import Mathlib.Data.List.TakeWhile

/-!
# Splitting at a separator, a bounded number of times

At most `n` parts: the first `n - 1` end at the next separator, the last is all the rest,
separators included.

* `splitn` — the parts;
* `splitn_append` — a text put together from its parts;
* `splitn_cases` — the two ways a text can be split.
-/

namespace Foundations

variable {α : Type} [DecidableEq α]

def splitn : ℕ → α → List α → List (List α)
  | 0, _, _ => []
  | 1, _, l => [l]
  | n + 2, sep, l =>
      match l.dropWhile (· ≠ sep) with
      | [] => [l]
      | _ :: rest => l.takeWhile (· ≠ sep) :: splitn (n + 1) sep rest

variable {sep : α} {l : List α}

theorem splitn_one : splitn 1 sep l = [l] :=
  rfl

/-- Without a separator there is one part. -/
theorem splitn_of_notMem (n : ℕ) (h : sep ∉ l) : splitn (n + 2) sep l = [l] := by
  have hdrop : l.dropWhile (· ≠ sep) = [] := by
    rw [List.dropWhile_eq_nil_iff]
    intro a ha
    rw [decide_eq_true_eq]
    rintro rfl
    exact h ha
  rw [splitn, hdrop]

/-- The first part ends at the first separator. -/
theorem splitn_append (n : ℕ) {part : List α} (rest : List α) (h : sep ∉ part) :
    splitn (n + 2) sep (part ++ sep :: rest) = part :: splitn (n + 1) sep rest := by
  have hall : ∀ a ∈ part, decide (a ≠ sep) = true := by
    intro a ha
    rw [decide_eq_true_eq]
    rintro rfl
    exact h ha
  have hdrop : (part ++ sep :: rest).dropWhile (· ≠ sep) = sep :: rest := by
    rw [List.dropWhile_append_of_pos hall]
    simp
  have htake : (part ++ sep :: rest).takeWhile (· ≠ sep) = part := by
    rw [List.takeWhile_append_of_pos hall]
    simp
  rw [splitn, hdrop, htake]

/-- Either there is no separator, or the text goes on behind the first one. -/
theorem splitn_cases (n : ℕ) (sep : α) (l : List α) :
    (sep ∉ l ∧ splitn (n + 2) sep l = [l]) ∨
      ∃ part rest, sep ∉ part ∧ l = part ++ sep :: rest ∧
        splitn (n + 2) sep l = part :: splitn (n + 1) sep rest := by
  by_cases h : sep ∈ l
  · obtain ⟨part, rest, rfl, hpart⟩ := List.eq_append_cons_of_mem h
    exact Or.inr ⟨part, rest, hpart, rfl, splitn_append n rest hpart⟩
  · exact Or.inl ⟨h, splitn_of_notMem n h⟩

end Foundations
