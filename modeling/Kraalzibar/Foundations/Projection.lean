import Kraalzibar.Foundations.Contracts
import Kraalzibar.Foundations.Threads

/-!
# Pools seen from one domain

Some of the operations of a system belong to a domain, and a view shows the domain's part
of the state.  If the other operations change nothing of the view that its own
environment could not change, every run of the pool is, for the domain, a run of its own
operations alone.

* `Unwinding` — what has to be shown of one call;
* `Projects` — a pool and what the domain sees of it;
* `Unwinding.steps` — every interleaving projects to an interleaving of the domain.
-/

namespace Foundations

variable {σ τ Op Call : Type} {Reply : Call → Type} {Result : Op → Type}

/-- Every call of the program is one of `calls`, whatever is replied. -/
def Client.Calls {α : Type} (calls : Call → Prop) (p : Client Call Reply α) : Prop :=
  p.Meets calls (fun _ _ => True) (fun _ => True)

/-- `view` shows what the operations of `own` see of `S`; alone they run in `S'`. -/
structure Unwinding (S : System σ Op Call Reply Result) (S' : System τ Op Call Reply Result)
    (view : σ → τ) (own : Op → Prop) (mine others : Call → Prop) : Prop where
  program_eq : ∀ op, own op → S'.program op = S.program op
  starts : ∀ op, own op → S'.starts op
  allows : ∀ log i c, S'.allows log i c
  ownCalls : ∀ op, own op → (S.program op).Calls mine
  otherCalls : ∀ op, ¬ own op → (S.program op).Calls others
  /-- A call of the domain is answered from the view, and changes the view alike. -/
  own_step : ∀ s c, mine c → (S.handle s c).1 = (S'.handle (view s) c).1 ∧
    view (S.handle s c).2 = (S'.handle (view s) c).2
  /-- A call of the others is a step of the domain's environment, or none. -/
  other_step : ∀ s c, others c →
    Relation.ReflTransGen S'.env (view s) (view (S.handle s c).2)
  env_step : ∀ s t, S.env s t → Relation.ReflTransGen S'.env (view s) (view t)

/-- `p'` is what the domain sees of `p`: its part of the state, and its own threads. -/
structure Projects (view : σ → τ) (own : Op → Prop) (mine others : Call → Prop)
    (p : Pool σ Op Call Reply Result) (p' : Pool τ Op Call Reply Result) : Prop where
  state : p'.state = view p.state
  thread : ∀ i op program, own op →
    ((∃ origin, p.threads i = some ⟨op, origin, program⟩) ↔
      ∃ origin, p'.threads i = some ⟨op, origin, program⟩)
  only : ∀ i thread, p'.threads i = some thread → own thread.op
  ownCalls : ∀ i thread, p.threads i = some thread → own thread.op →
    thread.program.Calls mine
  otherCalls : ∀ i thread, p.threads i = some thread → ¬ own thread.op →
    thread.program.Calls others

namespace Projects

variable {view : σ → τ} {own : Op → Prop} {mine others : Call → Prop}
variable {p : Pool σ Op Call Reply Result} {p' : Pool τ Op Call Reply Result}

theorem init (s : σ) :
    Projects view own mine others (Pool.init s : Pool σ Op Call Reply Result)
      (Pool.init (view s)) where
  state := rfl
  thread := by
    intro i op program _
    constructor <;> (intro h; obtain ⟨_, h⟩ := h; cases h)
  only := by
    intro i thread h
    cases h
  ownCalls := by
    intro i thread h
    cases h
  otherCalls := by
    intro i thread h
    cases h

/-- Where the pool has no thread of the domain, the domain sees none. -/
theorem thread_none (h : Projects view own mine others p p') {i : ℕ}
    (hi : ∀ thread, p.threads i = some thread → ¬ own thread.op) :
    p'.threads i = none := by
  cases hthread : p'.threads i with
  | none => rfl
  | some thread =>
      have hown := h.only i thread hthread
      obtain ⟨origin, hp⟩ :=
        (h.thread i thread.op thread.program hown).mpr ⟨thread.origin, hthread⟩
      exact absurd hown (hi ⟨thread.op, origin, thread.program⟩ hp)

/-- What a thread of the domain has returned, the domain sees. -/
theorem returned_iff (h : Projects view own mine others p p') {i : ℕ} {op : Op}
    {a : Result op} (hown : own op) :
    p.returned i = some ⟨op, a⟩ ↔ p'.returned i = some ⟨op, a⟩ := by
  constructor
  · intro hi
    obtain ⟨origin, hthread⟩ := Pool.returned_eq_some hi
    obtain ⟨origin', hthread'⟩ := (h.thread i op _ hown).mp ⟨origin, hthread⟩
    rw [Pool.returned, hthread']
  · intro hi
    obtain ⟨origin', hthread'⟩ := Pool.returned_eq_some hi
    obtain ⟨origin, hthread⟩ := (h.thread i op _ hown).mpr ⟨origin', hthread'⟩
    rw [Pool.returned, hthread]

/-- The state moves, and the domain's view of it with it. -/
theorem move (h : Projects view own mine others p p') {s : σ} {t : τ}
    (hs : t = view s) :
    Projects view own mine others { p with state := s } { p' with state := t } where
  state := hs
  thread := h.thread
  only := h.only
  ownCalls := h.ownCalls
  otherCalls := h.otherCalls

/-- A thread of another domain is put in place. -/
theorem put_other (h : Projects view own mine others p p') {i : ℕ} {log : Log Call}
    {changed : Thread Op Call Reply Result} (hother : ¬ own changed.op)
    (hcalls : changed.program.Calls others)
    (hi : ∀ thread, p.threads i = some thread → ¬ own thread.op) :
    Projects view own mine others
      { p with threads := Function.update p.threads i (some changed), log } p' where
  state := h.state
  thread := by
    intro j op program hown
    rw [← h.thread j op program hown]
    by_cases hj : j = i
    · subst hj
      simp only [Function.update_self]
      constructor
      · intro hthread
        obtain ⟨origin, hthread⟩ := hthread
        obtain rfl := Option.some.inj hthread
        exact absurd hown hother
      · intro hthread
        obtain ⟨origin, hthread⟩ := hthread
        exact absurd hown (hi _ hthread)
    · simp only [Function.update_of_ne hj]
  only := h.only
  ownCalls := by
    intro j thread hthread hown
    obtain ⟨-, rfl⟩ | hthread := Pool.thread_cases hthread
    · exact absurd hown hother
    · exact h.ownCalls j thread hthread hown
  otherCalls := by
    intro j thread hthread hnot
    obtain ⟨-, rfl⟩ | hthread := Pool.thread_cases hthread
    · exact hcalls
    · exact h.otherCalls j thread hthread hnot

/-- A thread of the domain is put in place, on both sides. -/
theorem put_own (h : Projects view own mine others p p') {i : ℕ} {op : Op}
    {origin origin' : Log Call} {program : Client Call Reply (Result op)}
    {log log' : Log Call} (hown : own op) (hcalls : program.Calls mine) :
    Projects view own mine others
      { p with threads := Function.update p.threads i (some ⟨op, origin, program⟩), log }
      { p' with
        threads := Function.update p'.threads i (some ⟨op, origin', program⟩)
        log := log' } where
  state := h.state
  thread := by
    intro j op' program' hown'
    by_cases hj : j = i
    · subst hj
      simp only [Function.update_self]
      constructor
      · intro hthread
        obtain ⟨_, hthread⟩ := hthread
        cases hthread
        exact ⟨origin', rfl⟩
      · intro hthread
        obtain ⟨_, hthread⟩ := hthread
        cases hthread
        exact ⟨origin, rfl⟩
    · simp only [Function.update_of_ne hj]
      exact h.thread j op' program' hown'
  only := by
    intro j thread hthread
    obtain ⟨-, rfl⟩ | hthread := Pool.thread_cases hthread
    · exact hown
    · exact h.only j thread hthread
  ownCalls := by
    intro j thread hthread hown'
    obtain ⟨-, rfl⟩ | hthread := Pool.thread_cases hthread
    · exact hcalls
    · exact h.ownCalls j thread hthread hown'
  otherCalls := by
    intro j thread hthread hnot
    obtain ⟨-, rfl⟩ | hthread := Pool.thread_cases hthread
    · exact absurd hown hnot
    · exact h.otherCalls j thread hthread hnot

end Projects

namespace Unwinding

variable {S : System σ Op Call Reply Result} {S' : System τ Op Call Reply Result}
variable {view : σ → τ} {own : Op → Prop} {mine others : Call → Prop}
variable {p q : Pool σ Op Call Reply Result} {p' : Pool τ Op Call Reply Result}

/-- Steps of the environment are steps of a pool. -/
theorem env_steps {t u : τ} (h : Relation.ReflTransGen S'.env t u) :
    Pool.Steps S' { p' with state := t } { p' with state := u } := by
  induction h with
  | refl => exact .refl
  | tail _ hstep ih => exact ih.tail (.env hstep)

/-- The domain's pool follows a move of its view. -/
theorem follow (hp : Projects view own mine others p p') {s : σ}
    (h : Relation.ReflTransGen S'.env (view p.state) (view s)) :
    Pool.Steps S' p' { p' with state := view s } := by
  have hsteps : Pool.Steps S' { p' with state := view p.state }
      { p' with state := view s } := env_steps h
  rwa [← hp.state] at hsteps

/-- **Step lemma.**  One step of the pool is some steps of the domain's. -/
theorem step (hS : Unwinding S S' view own mine others)
    (hp : Projects view own mine others p p') (h : Pool.Step S p q) :
    ∃ q', Pool.Steps S' p' q' ∧ Projects view own mine others q q' := by
  cases h with
  | @start i op hnew hop =>
      have hnone : ∀ thread, p.threads i = some thread → ¬ own thread.op := by
        intro thread hthread
        rw [hnew] at hthread
        cases hthread
      by_cases hown : own op
      · refine ⟨p'.start S' i op,
          .single (.start (hp.thread_none hnone) (hS.starts op hown)), ?_⟩
        unfold Pool.start
        rw [hS.program_eq op hown]
        exact hp.put_own hown (hS.ownCalls op hown)
      · exact ⟨p', .refl, hp.put_other hown (hS.otherCalls op hown) hnone⟩
  | @call i op origin c k hi hc =>
      by_cases hown : own op
      · obtain ⟨hmine, hk⟩ := hp.ownCalls i _ hi hown
        obtain ⟨origin', hi'⟩ := (hp.thread i op _ hown).mp ⟨origin, hi⟩
        obtain ⟨hreply, hview⟩ := hS.own_step p.state c hmine
        refine ⟨p'.advance S' i op origin' c k,
          .single (.call hi' (hS.allows p'.log i c)), ?_⟩
        unfold Pool.advance
        rw [hp.state, ← hreply]
        exact (hp.put_own hown (hk _ trivial)).move hview.symm
      · obtain ⟨hother, hk⟩ := hp.otherCalls i _ hi hown
        refine ⟨{ p' with state := view (S.handle p.state c).2 },
          follow hp (hS.other_step p.state c hother), ?_⟩
        have hcalls : Client.Calls others
            (Thread.mk op origin (k (S.handle p.state c).1)).program := hk _ trivial
        refine (hp.put_other hown hcalls ?_).move rfl
        intro thread hthread
        rw [hi] at hthread
        obtain rfl := Option.some.inj hthread
        exact hown
  | @env t ht =>
      exact ⟨{ p' with state := view t }, follow hp (hS.env_step p.state t ht),
        hp.move rfl⟩

/-- **Every interleaving projects** to an interleaving of the domain's operations. -/
theorem steps (hS : Unwinding S S' view own mine others)
    (hp : Projects view own mine others p p') (h : Pool.Steps S p q) :
    ∃ q', Pool.Steps S' p' q' ∧ Projects view own mine others q q' := by
  induction h with
  | refl => exact ⟨p', .refl, hp⟩
  | tail _ hstep ih =>
      obtain ⟨r', hsteps, hr⟩ := ih
      obtain ⟨q', hsteps', hq⟩ := hS.step hr hstep
      exact ⟨q', hsteps.trans hsteps', hq⟩

end Unwinding

end Foundations
