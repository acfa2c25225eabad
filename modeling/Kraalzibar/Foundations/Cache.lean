import Mathlib.Logic.Function.Basic

/-!
# Caches

A cache is the entry a lookup would return for each key.  Besides what its
users insert and invalidate, it may forget any entry at any time.

`Cache.Coherent` is the invariant of a cache that only repeats what it could
recompute: every entry is right about its key.  `Cache.restrict` is what a user of some
of the keys sees of a shared cache.
-/

namespace Foundations

abbrev Cache (κ ν : Type) := κ → Option ν

namespace Cache

variable {κ ν : Type}

def empty : Cache κ ν := fun _ => none

def insert [DecidableEq κ] (cache : Cache κ ν) (key : κ) (value : ν) : Cache κ ν :=
  Function.update cache key (some value)

def invalidate [DecidableEq κ] (cache : Cache κ ν) (key : κ) : Cache κ ν :=
  Function.update cache key none

/-- `later` is `cache` with some of its entries gone. -/
def Forgets (cache later : Cache κ ν) : Prop :=
  ∀ key value, later key = some value → cache key = some value

/-- Every entry satisfies `right`. -/
def Coherent (right : κ → ν → Prop) (cache : Cache κ ν) : Prop :=
  ∀ key value, cache key = some value → right key value

variable {right right' : κ → ν → Prop} {cache : Cache κ ν}

theorem coherent_empty : Coherent right (empty : Cache κ ν) := by
  intro key value h
  cases h

theorem Coherent.imp (h : cache.Coherent right)
    (hright : ∀ key value, right key value → right' key value) : cache.Coherent right' :=
  fun key value hget => hright key value (h key value hget)

theorem Coherent.forget {later : Cache κ ν} (h : cache.Coherent right)
    (hforgets : cache.Forgets later) : later.Coherent right :=
  fun key value hlater => h key value (hforgets key value hlater)

variable [DecidableEq κ]

/-- Inserting a right entry keeps a cache coherent. -/
theorem Coherent.insert (h : cache.Coherent right) {key : κ} {value : ν}
    (hright : right key value) : (cache.insert key value).Coherent right := by
  intro key' value' hget
  by_cases hkey : key' = key
  · subst hkey
    rw [Cache.insert, Function.update_self] at hget
    obtain rfl := Option.some.inj hget
    exact hright
  · rw [Cache.insert, Function.update_of_ne hkey] at hget
    exact h key' value' hget

/-- After a key is invalidated, what was right may have changed there. -/
theorem Coherent.invalidate (h : cache.Coherent right) {key : κ}
    (hright : ∀ key' ≠ key, ∀ value, right key' value → right' key' value) :
    (cache.invalidate key).Coherent right' := by
  intro key' value hget
  by_cases hkey : key' = key
  · subst hkey
    rw [Cache.invalidate, Function.update_self] at hget
    cases hget
  · rw [Cache.invalidate, Function.update_of_ne hkey] at hget
    exact hright key' hkey value (h key' value hget)

/-! ### The entries of some keys -/

section

variable {mine : κ → Prop} [DecidablePred mine]

variable (mine) in
def restrict (cache : Cache κ ν) : Cache κ ν :=
  fun key => if mine key then cache key else none

variable (mine) in
omit [DecidableEq κ] in
theorem restrict_of_mine {key : κ} (hkey : mine key) :
    cache.restrict mine key = cache key :=
  if_pos hkey

omit [DecidableEq κ] in
@[simp] theorem restrict_empty : (empty : Cache κ ν).restrict mine = empty := by
  funext key
  exact ite_self none

variable (mine) (cache) in
/-- Setting an entry of one's own is seen. -/
theorem restrict_update {key : κ} (hkey : mine key) (entry : Option ν) :
    restrict mine (Function.update cache key entry) =
      Function.update (cache.restrict mine) key entry := by
  funext other
  unfold restrict
  by_cases hother : other = key
  · subst hother
    rw [Function.update_self, Function.update_self, if_pos hkey]
  · rw [Function.update_of_ne hother, Function.update_of_ne hother]

variable (mine) (cache) in
/-- Setting the entry of another is not. -/
theorem restrict_update_other {key : κ} (hkey : ¬ mine key) (entry : Option ν) :
    restrict mine (Function.update cache key entry) = cache.restrict mine := by
  funext other
  unfold restrict
  by_cases hother : other = key
  · subst hother
    rw [if_neg hkey, if_neg hkey]
  · rw [Function.update_of_ne hother]

omit [DecidableEq κ] in
theorem Forgets.restrict {later : Cache κ ν} (h : cache.Forgets later) :
    (cache.restrict mine).Forgets (later.restrict mine) := by
  intro key value hget
  unfold Cache.restrict at hget ⊢
  split at hget
  · next hkey =>
      rw [if_pos hkey]
      exact h key value hget
  · cases hget

end

end Cache

end Foundations
