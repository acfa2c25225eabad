import Kraalzibar.Foundations.ShortCircuit
import Kraalzibar.Foundations.Threads
import Mathlib.Order.Basic

/-!
# Servers that only grow

When every call and every step of the environment leaves at least what was there, what a
thread has found out stays true.  So a thread can be looked at on its own: whatever the
others do, it meets a state that has grown.

* `System.Grows` — the server;
* `Client.Secures` — what a program does on a growing server: a guarantee for each call it
  makes, and a postcondition on the state;
* `Pool.Steps.secured` — every thread of a pool secures its postcondition, and every call
  in the log has the guarantee of the thread that made it.
-/

namespace Foundations

variable {σ Op Call : Type} {Reply : Call → Type} {Result : Op → Type} [Preorder σ]

structure System.Grows (S : System σ Op Call Reply Result) : Prop where
  handle : ∀ s c, s ≤ (S.handle s c).2
  env : ∀ s t, S.env s t → s ≤ t

namespace Client

variable {α β : Type} {handle : Handler σ Call Reply} {G : σ → Call → Prop}
variable {post : σ → α → Prop}

/-- Each call is made in a state in which the guarantee holds for it, and at the end the
postcondition does. -/
def Secures (handle : Handler σ Call Reply) (G : σ → Call → Prop) (post : σ → α → Prop) :
    σ → Client Call Reply α → Prop
  | s, .done a => post s a
  | s, .call c k => ∀ t, s ≤ t →
      G t c ∧ Secures handle G post (handle t c).2 (k (handle t c).1)

theorem Secures.mono (hpost : ∀ s t a, s ≤ t → post s a → post t a) {s t : σ} (hst : s ≤ t)
    {p : Client Call Reply α} (hp : Secures handle G post s p) :
    Secures handle G post t p := by
  cases p with
  | done a => exact hpost s t a hst hp
  | call c k => exact fun u htu => hp u (hst.trans htu)

theorem Secures.imp {post' : σ → α → Prop} (hpost : ∀ s a, post s a → post' s a) {s : σ}
    {p : Client Call Reply α} (hp : Secures handle G post s p) :
    Secures handle G post' s p := by
  induction p generalizing s with
  | done a => exact hpost s a hp
  | call c k ih => exact fun t hst => ⟨(hp t hst).1, ih _ (hp t hst).2⟩

theorem Secures.bind {post' : σ → β → Prop} {s : σ} {p : Client Call Reply α}
    {f : α → Client Call Reply β} (hp : Secures handle G post s p)
    (hf : ∀ t a, post t a → Secures handle G post' t (f a)) :
    Secures handle G post' s (p >>= f) := by
  induction p generalizing s with
  | done a => exact hf s a hp
  | call c k ih => exact fun t hst => ⟨(hp t hst).1, ih _ (hp t hst).2⟩

theorem Secures.trivial (s : σ) (p : Client Call Reply α) :
    Secures handle (fun _ _ => True) (fun _ _ => True) s p := by
  induction p generalizing s with
  | done a => exact True.intro
  | call c k ih => exact fun t _ => ⟨True.intro, ih _ _⟩

/-- An adapter that keeps what its calls need. -/
theorem Secures.translate {Call' : Type} {Reply' : Call' → Type} {K : σ → Prop}
    {adapt : ∀ c, Client Call Reply (Reply' c)}
    (hadapt : ∀ c s, K s → Secures handle G (fun t _ => K t) s (adapt c)) {s : σ} (hs : K s)
    (p : Client Call' Reply' α) :
    Secures handle G (fun t _ => K t) s (p.translate adapt) := by
  induction p generalizing s with
  | done a => exact hs
  | call c k ih => exact (hadapt c s hs).bind fun t r ht => ih r ht

end Client

/-- An error ends the sequence. -/
theorem Fallible.secures_bind {ε α β : Type} {handle : Client.Handler σ Call Reply}
    {G : σ → Call → Prop} {post : σ → Except ε α → Prop} {post' : σ → Except ε β → Prop}
    {s : σ} {x : Fallible ε Call Reply α} {f : α → Fallible ε Call Reply β}
    (hx : Client.Secures handle G post s x.run)
    (hok : ∀ t a, post t (.ok a) → Client.Secures handle G post' t (f a).run)
    (herror : ∀ t e, post t (.error e) → post' t (.error e)) :
    Client.Secures handle G post' s (x >>= f).run := by
  refine Client.Secures.bind (p := x.run) hx ?_
  intro t result hresult
  cases result with
  | error e => exact herror t e hresult
  | ok a => exact hok t a hresult

namespace Pool

variable {S : System σ Op Call Reply Result} {p q : Pool σ Op Call Reply Result}
variable {G : Op → σ → Call → Prop} {post : ∀ op, σ → Result op → Prop}

/-- The state only grows. -/
theorem Step.grows (hS : S.Grows) (h : Step S p q) : p.state ≤ q.state := by
  cases h with
  | start hnew hop => exact le_rfl
  | call hi hc => exact hS.handle _ _
  | env ht => exact hS.env _ _ ht

theorem Steps.grows (hS : S.Grows) (h : Steps S p q) : p.state ≤ q.state := by
  induction h with
  | refl => exact le_rfl
  | tail _ hstep ih => exact ih.trans (hstep.grows hS)

omit [Preorder σ] in
/-- A thread stays, with its operation. -/
theorem Step.op_eq (h : Step S p q) {i : ℕ} {thread : Thread Op Call Reply Result}
    (hi : p.threads i = some thread) :
    ∃ thread', q.threads i = some thread' ∧ thread'.op = thread.op := by
  cases h with
  | @start j op hnew hop =>
      have hne : i ≠ j := by
        rintro rfl
        rw [hnew] at hi
        cases hi
      exact ⟨thread, (Function.update_of_ne hne _ _).trans hi, rfl⟩
  | @call j op origin c k hj hc =>
      by_cases hij : i = j
      · subst hij
        rw [hj] at hi
        obtain rfl := Option.some.inj hi
        exact ⟨_, Function.update_self .., rfl⟩
      · exact ⟨thread, (Function.update_of_ne hij _ _).trans hi, rfl⟩
  | env ht => exact ⟨thread, hi, rfl⟩

omit [Preorder σ] in
/-- Whoever made a call is there. -/
theorem Steps.logged {s : σ} (h : Steps S (init s) p) {i : ℕ} {c : Call}
    (hmem : (i, c) ∈ p.log) : p.threads i ≠ none := by
  induction h with
  | refl => cases hmem
  | @tail q r _ hstep ih =>
      have hkept : (i, c) ∈ q.log → r.threads i ≠ none := by
        intro hold
        obtain ⟨thread, hthread⟩ := Option.ne_none_iff_exists'.mp (ih hold)
        obtain ⟨thread', hthread', -⟩ := hstep.op_eq hthread
        rw [hthread']
        exact Option.some_ne_none _
      cases hstep with
      | start hfree hop => exact hkept hmem
      | @call j op origin c' k hj hc =>
          obtain hold | hnew := List.mem_append.mp hmem
          · exact hkept hold
          · obtain ⟨rfl, rfl⟩ := Prod.mk.inj (List.mem_singleton.mp hnew)
            exact ne_of_eq_of_ne (Function.update_self i _ _) (Option.some_ne_none _)
      | env ht => exact hkept hmem

omit [Preorder σ] in
/-- What every call keeps, and every step of the environment, holds along a run. -/
theorem Steps.keeps {I : Log Call → σ → Prop}
    (hcall : ∀ log s i c, I log s → I (log ++ [(i, c)]) (S.handle s c).2)
    (henv : ∀ log s t, I log s → S.env s t → I log t) (h : Steps S p q)
    (hp : I p.log p.state) : I q.log q.state := by
  induction h with
  | refl => exact hp
  | tail _ hstep ih =>
      cases hstep with
      | start hnew hop => exact ih
      | call hi hc => exact hcall _ _ _ _ ih
      | env ht => exact henv _ _ _ ih ht

variable (S G post) in
/-- Every thread that was not in `p` secures its postcondition from here, and every call
such a thread has made was guaranteed. -/
structure Secured (p q : Pool σ Op Call Reply Result) : Prop where
  threads : ∀ i thread, p.threads i = none → q.threads i = some thread →
    Client.Secures S.handle (G thread.op) (post thread.op) q.state thread.program
  calls : ∀ i c, (i, c) ∈ q.log → p.threads i = none →
    ∃ thread, q.threads i = some thread ∧ G thread.op q.state c

/-- One step. -/
theorem Step.secured (hS : S.Grows) (hG : ∀ op s t c, s ≤ t → G op s c → G op t c)
    (hpost : ∀ op s t a, s ≤ t → post op s a → post op t a)
    (hspec : ∀ op s, p.state ≤ s → S.starts op →
      Client.Secures S.handle (G op) (post op) s (S.program op))
    {r : Pool σ Op Call Reply Result} (hpq : Steps S p q) (h : Step S q r)
    (hq : Secured S G post p q) : Secured S G post p r := by
  have hle := h.grows hS
  refine ⟨?_, ?_⟩
  · intro i thread hnew hi
    cases h with
    | @start j op hfree hop =>
        obtain ⟨rfl, rfl⟩ | hi := thread_cases hi
        · exact hspec op q.state (hpq.grows hS) hop
        · exact hq.threads i thread hnew hi
    | @call j op origin c k hj hc =>
        obtain ⟨rfl, rfl⟩ | hi := thread_cases hi
        · exact (hq.threads _ _ hnew hj q.state le_rfl).2
        · exact (hq.threads i thread hnew hi).mono (hpost thread.op) hle
    | env ht => exact (hq.threads i thread hnew hi).mono (hpost thread.op) hle
  · have hkept : ∀ i c, (i, c) ∈ q.log → p.threads i = none →
        ∃ thread, r.threads i = some thread ∧ G thread.op r.state c := by
      intro i c hmem hnew
      obtain ⟨thread, hthread, hguarantee⟩ := hq.calls i c hmem hnew
      obtain ⟨thread', hthread', hop⟩ := h.op_eq hthread
      refine ⟨thread', hthread', ?_⟩
      rw [hop]
      exact hG _ _ _ _ hle hguarantee
    intro i c hmem hnew
    cases h with
    | start hfree hop => exact hkept i c hmem hnew
    | @call j op origin c' k hj hc =>
        obtain hmem | hmem := List.mem_append.mp hmem
        · exact hkept i c hmem hnew
        · obtain ⟨rfl, rfl⟩ := Prod.mk.inj (List.mem_singleton.mp hmem)
          have hguarantee := (hq.threads _ _ hnew hj q.state le_rfl).1
          exact ⟨_, Function.update_self .., hG _ _ _ _ hle hguarantee⟩
    | env ht => exact hkept i c hmem hnew

/-- **Threads on a growing server** secure what they secure alone. -/
theorem Steps.secured (hS : S.Grows) (hG : ∀ op s t c, s ≤ t → G op s c → G op t c)
    (hpost : ∀ op s t a, s ≤ t → post op s a → post op t a)
    (hspec : ∀ op s, p.state ≤ s → S.starts op →
      Client.Secures S.handle (G op) (post op) s (S.program op))
    (hlog : ∀ i c, (i, c) ∈ p.log → p.threads i ≠ none) (h : Steps S p q) :
    Secured S G post p q := by
  induction h with
  | refl =>
      refine ⟨?_, ?_⟩
      · intro i thread hnew hi
        rw [hnew] at hi
        cases hi
      · exact fun i c hmem hnew => (hlog i c hmem hnew).elim
  | tail hsteps hstep ih => exact Step.secured hS hG hpost hspec hsteps hstep ih

/-- A thread that is new and has returned has secured its postcondition. -/
theorem Secured.returned (h : Secured S G post p q) {i : ℕ} {op : Op} {a : Result op}
    (hnew : p.threads i = none) (hi : q.returned i = some ⟨op, a⟩) : post op q.state a := by
  obtain ⟨origin, hthread⟩ := returned_eq_some hi
  exact h.threads i _ hnew hthread

end Pool

end Foundations
