import Kraalzibar.Foundations.ShortCircuit

/-!
# Contracts of client programs

A program promises which calls it makes, and what it returns as long as the replies are
good.  A contract says nothing about the server, so it holds wherever the program runs:
alone, in a pool, or behind an adapter.

* `Client.Meets` — the contract;
* `Client.Meets.bind`, `Client.Meets.translate` — sequences and adapters;
* `Fallible.Meets` — the same for programs that may stop with an error: it says which
  errors they stop with.
-/

namespace Foundations

namespace Client

variable {Call : Type} {Reply : Call → Type} {α β : Type}

/-- Every call satisfies `pre`, and as long as every reply is good the result satisfies
`post`. -/
def Meets (pre : Call → Prop) (good : ∀ c, Reply c → Prop) (post : α → Prop) :
    Client Call Reply α → Prop
  | .done a => post a
  | .call c k => pre c ∧ ∀ r, good c r → Meets pre good post (k r)

variable {pre : Call → Prop} {good : ∀ c, Reply c → Prop} {post : α → Prop}

/-- Every program keeps the contract that asks for nothing. -/
theorem Meets.trivial (p : Client Call Reply α) :
    Meets (fun _ => True) good (fun _ => True) p := by
  induction p with
  | done a => exact True.intro
  | call c k ih => exact ⟨True.intro, fun r _ => ih r⟩

theorem Meets.request {c : Call} (hc : pre c) :
    Meets pre good (good c) (request c : Client Call Reply _) :=
  ⟨hc, fun _ hr => hr⟩

theorem Meets.bind {post' : β → Prop} {p : Client Call Reply α}
    {f : α → Client Call Reply β} (hp : Meets pre good post p)
    (hf : ∀ a, post a → Meets pre good post' (f a)) :
    Meets pre good post' (p >>= f) := by
  induction p with
  | done a => exact hf a hp
  | call c k ih => exact ⟨hp.1, fun r hr => ih r (hp.2 r hr)⟩

theorem Meets.imp {post' : α → Prop} {p : Client Call Reply α}
    (hp : Meets pre good post p) (hpost : ∀ a, post a → post' a) :
    Meets pre good post' p := by
  induction p with
  | done a => exact hpost a hp
  | call c k ih => exact ⟨hp.1, fun r hr => ih r (hp.2 r hr)⟩

theorem Meets.weaken {pre' : Call → Prop} {p : Client Call Reply α}
    (hp : Meets pre good post p) (hpre : ∀ c, pre c → pre' c) : Meets pre' good post p := by
  induction p with
  | done a => exact hp
  | call c k ih => exact ⟨hpre c hp.1, fun r hr => ih r (hp.2 r hr)⟩

/-- Alone, a program that is answered well ends well. -/
theorem Meets.runWith {answer : ∀ c, Reply c} {p : Client Call Reply α}
    (hp : Meets pre good post p) (h : ∀ c, pre c → good c (answer c)) :
    post (p.runWith answer) := by
  induction p with
  | done a => exact hp
  | call c k ih => exact ih _ (hp.2 _ (h c hp.1))

/-- An adapter that answers well, as long as it is answered well, keeps the contract. -/
theorem Meets.translate {Call' : Type} {Reply' : Call' → Type} {pre' : Call' → Prop}
    {good' : ∀ c, Reply' c → Prop} {adapt : ∀ c, Client Call' Reply' (Reply c)}
    (hadapt : ∀ c, pre c → Meets pre' good' (good c) (adapt c))
    {p : Client Call Reply α} (hp : Meets pre good post p) :
    Meets pre' good' post (p.translate adapt) := by
  induction p with
  | done a => exact hp
  | call c k ih => exact (hadapt c hp.1).bind fun r hr => ih r (hp.2 r hr)

end Client

namespace Fallible

variable {ε Call : Type} {Reply : Call → Type} {α β : Type}

/-- Every call satisfies `pre`, and as long as every reply is good only the errors that
`E` admits stop the program. -/
def Meets (pre : Call → Prop) (good : ∀ c, Reply c → Prop) (E : ε → Prop)
    (x : Fallible ε Call Reply α) : Prop :=
  Client.Meets pre good (fun result => ∀ e, result = .error e → E e) x.run

variable {pre : Call → Prop} {good : ∀ c, Reply c → Prop} {E : ε → Prop}

theorem Meets.ofExcept {r : Except ε α} (h : ∀ e, r = .error e → E e) :
    Meets pre good E (ExceptT.mk (Pure.pure r) : Fallible ε Call Reply α) :=
  h

theorem Meets.pure (a : α) : Meets pre good E (Pure.pure a : Fallible ε Call Reply α) :=
  Meets.ofExcept nofun

theorem Meets.throw {e : ε} (he : E e) :
    Meets pre good E (MonadExcept.throw e : Fallible ε Call Reply α) := by
  refine Meets.ofExcept ?_
  intro e' heq
  cases heq
  exact he

/-- One call, whose good replies are turned into admitted errors at worst. -/
theorem Meets.call {c : Call} {f : Reply c → Except ε α} (hc : pre c)
    (hf : ∀ r, good c r → ∀ e, f r = .error e → E e) :
    Meets pre good E
      (ExceptT.mk (Client.request c >>= fun reply => Pure.pure (f reply)) :
        Fallible ε Call Reply α) :=
  ⟨hc, hf⟩

/-- A call that cannot fail. -/
theorem Meets.lift {c : Call} (hc : pre c) :
    Meets pre good E (ExceptT.lift (Client.request c) : Fallible ε Call Reply _) :=
  ⟨hc, fun _ _ _ heq => by cases heq⟩

theorem Meets.bind {x : Fallible ε Call Reply α} {f : α → Fallible ε Call Reply β}
    (hx : Meets pre good E x) (hf : ∀ a, Meets pre good E (f a)) :
    Meets pre good E (x >>= f) := by
  refine Client.Meets.bind (p := x.run) hx ?_
  intro result hresult
  cases result with
  | error e => exact fun e' heq => hresult e' (by cases heq; rfl)
  | ok a => exact hf a

/-- A change of the error type changes the errors alone. -/
theorem Meets.mapError {ε' : Type} {E' : ε' → Prop} {f : ε → ε'}
    {x : Fallible ε Call Reply α} (hx : Meets pre good E x) (hf : ∀ e, E e → E' (f e)) :
    Meets pre good E'
      (ExceptT.mk (x.run >>= fun r => Pure.pure (r.mapError f)) :
        Fallible ε' Call Reply α) := by
  refine Client.Meets.bind hx ?_
  intro result hresult e heq
  cases result with
  | error e' =>
      cases heq
      exact hf e' (hresult e' rfl)
  | ok a => cases heq

theorem Meets.translate {Call' : Type} {Reply' : Call' → Type} {pre' : Call' → Prop}
    {good' : ∀ c, Reply' c → Prop} {adapt : ∀ c, Client Call' Reply' (Reply c)}
    (hadapt : ∀ c, pre c → Client.Meets pre' good' (good c) (adapt c))
    {x : Fallible ε Call Reply α} (hx : Meets pre good E x) :
    Meets pre' good' E (ExceptT.mk (x.run.translate adapt)) :=
  Client.Meets.translate hadapt hx

theorem Meets.anyM {γ : Type} {l : List γ} {f : γ → Fallible ε Call Reply Bool}
    (hf : ∀ c ∈ l, Meets pre good E (f c)) : Meets pre good E (l.anyM f) := by
  induction l with
  | nil => exact .pure false
  | cons c l ih =>
      refine (hf c List.mem_cons_self).bind ?_
      intro b
      cases b with
      | true => exact .pure true
      | false => exact ih fun c' hc' => hf c' (List.mem_cons_of_mem c hc')

theorem Meets.allM {γ : Type} {l : List γ} {f : γ → Fallible ε Call Reply Bool}
    (hf : ∀ c ∈ l, Meets pre good E (f c)) : Meets pre good E (l.allM f) := by
  induction l with
  | nil => exact .pure true
  | cons c l ih =>
      refine (hf c List.mem_cons_self).bind ?_
      intro b
      cases b with
      | true => exact ih fun c' hc' => hf c' (List.mem_cons_of_mem c hc')
      | false => exact .pure false

theorem Meets.mapM {γ : Type} {l : List γ} {f : γ → Fallible ε Call Reply α}
    (hf : ∀ c ∈ l, Meets pre good E (f c)) : Meets pre good E (l.mapM f) := by
  induction l with
  | nil => exact .pure []
  | cons c l ih =>
      have htail := ih fun c' hc' => hf c' (List.mem_cons_of_mem c hc')
      rw [List.mapM_cons]
      exact (hf c List.mem_cons_self).bind fun a => htail.bind fun as => .pure (a :: as)

theorem Meets.andNotM {x y : Fallible ε Call Reply Bool} (hx : Meets pre good E x)
    (hy : Meets pre good E y) : Meets pre good E (Foundations.andNotM x y) := by
  refine hx.bind ?_
  intro b
  cases b with
  | false => exact .pure false
  | true => exact hy.bind fun c => .pure (!c)

end Fallible

end Foundations
