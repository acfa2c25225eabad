import Kraalzibar.Foundations.ShortCircuit

/-!
# Pre- and postconditions of client programs

Here a server answers a call and moves to a new state.  `Client.Exec` runs a
program against such a server while the environment may move it too, between any
two calls, and `Client.Triple` says what holds after every such run.

An assertion used between two calls has to survive the environment's steps:
`Stable` says so, and the rules ask for it exactly where the program waits.
-/

namespace Foundations

namespace Client

variable {σ Call : Type} {Reply : Call → Type} {α β : Type}

/-- The server's answer to a call, and its state after it. -/
abbrev Handler (σ Call : Type) (Reply : Call → Type) := σ → ∀ c : Call, Reply c × σ

/-- `Exec env handle s p s' a`: started in state `s`, the program returns `a` in
state `s'`. -/
inductive Exec (env : σ → σ → Prop) (handle : Handler σ Call Reply) :
    σ → Client Call Reply α → σ → α → Prop
  | done (s : σ) (a : α) : Exec env handle s (.done a) s a
  | call {s s' : σ} {c : Call} {k : Reply c → Client Call Reply α} {a : α}
      (rest : Exec env handle (handle s c).2 (k (handle s c).1) s' a) :
      Exec env handle s (.call c k) s' a
  | env {s t s' : σ} {p : Client Call Reply α} {a : α} (hstep : env s t)
      (rest : Exec env handle t p s' a) : Exec env handle s p s' a

/-- The run in which the environment does nothing. -/
def exec (handle : Handler σ Call Reply) : Client Call Reply α → σ → α × σ
  | .done a, s => (a, s)
  | .call c k, s => exec handle (k (handle s c).1) (handle s c).2

variable {env : σ → σ → Prop} {handle : Handler σ Call Reply}

theorem exec_spec (p : Client Call Reply α) (s : σ) :
    Exec env handle s p (exec handle p s).2 (exec handle p s).1 := by
  induction p generalizing s with
  | done a => exact .done s a
  | call c k ih => exact .call (ih _ _)

/-- A run of a sequence passes through a state between its parts. -/
theorem Exec.bind {p : Client Call Reply α} {f : α → Client Call Reply β} {s s' : σ}
    {b : β} (h : Exec env handle s (p >>= f) s' b) :
    ∃ t a, Exec env handle s p t a ∧ Exec env handle t (f a) s' b := by
  generalize hq : p >>= f = q at h
  induction h generalizing p with
  | done s b =>
      cases p with
      | done a =>
          have hf : f a = .done b := hq
          exact ⟨s, a, .done s a, hf ▸ .done s b⟩
      | call c k => cases hq
  | @call s s' c k b rest ih =>
      cases p with
      | done a =>
          have hf : f a = .call c k := hq
          exact ⟨s, a, .done s a, hf ▸ .call rest⟩
      | call c' k' =>
          cases hq
          obtain ⟨t, a, hp, hf⟩ := ih rfl
          exact ⟨t, a, .call hp, hf⟩
  | env hstep rest ih =>
      obtain ⟨t, a, hp, hf⟩ := ih hq
      exact ⟨t, a, .env hstep hp, hf⟩

/-- The environment's steps keep `P`. -/
def Stable (env : σ → σ → Prop) (P : σ → Prop) : Prop :=
  ∀ s t, P s → env s t → P t

theorem Stable.and_const {P : σ → Prop} (h : Stable env P) (p : Prop) :
    Stable env (fun s => p ∧ P s) :=
  fun s t hs henv => ⟨hs.1, h s t hs.2 henv⟩

/-- Every run of `p` from a state with `P` ends in one with `Q`. -/
def Triple (env : σ → σ → Prop) (handle : Handler σ Call Reply) (P : σ → Prop)
    (p : Client Call Reply α) (Q : α → σ → Prop) : Prop :=
  ∀ s s' a, P s → Exec env handle s p s' a → Q a s'

variable {P : σ → Prop} {Q : α → σ → Prop} {R : β → σ → Prop}

theorem Triple.done {a : α} (hP : Stable env P) (h : ∀ s, P s → Q a s) :
    Triple env handle P (.done a) Q := by
  intro s s' a' hs hrun
  generalize hp : (Client.done a : Client Call Reply α) = p at hrun
  induction hrun with
  | done s a' =>
      cases hp
      exact h s hs
  | call rest ih => cases hp
  | env hstep rest ih => exact ih (hP _ _ hs hstep) hp

/-- A program that makes no call returns what it is. -/
theorem Exec.eq_of_done {s s' : σ} {a b : α}
    (h : Exec env handle s (.done a) s' b) : b = a :=
  Triple.done (P := fun _ => True) (Q := fun b _ => b = a) (fun _ _ _ _ => trivial)
    (fun _ _ => rfl) s s' b trivial h

theorem Triple.call {c : Call} {k : Reply c → Client Call Reply α}
    {M : Reply c → σ → Prop} (hP : Stable env P)
    (h : ∀ s, P s → M (handle s c).1 (handle s c).2)
    (hk : ∀ r, Triple env handle (M r) (k r) Q) :
    Triple env handle P (.call c k) Q := by
  intro s s' a hs hrun
  generalize hp : Client.call c k = p at hrun
  induction hrun with
  | done s a => cases hp
  | call rest ih =>
      cases hp
      exact hk _ _ _ _ (h _ hs) rest
  | env hstep rest ih => exact ih (hP _ _ hs hstep) hp

/-- A call with a known answer. -/
theorem Triple.call_eq {c : Call} {k : Reply c → Client Call Reply α} (answer : Reply c)
    {M : σ → Prop} (hP : Stable env P)
    (h : ∀ s, P s → (handle s c).1 = answer ∧ M (handle s c).2)
    (hk : Triple env handle M (k answer) Q) : Triple env handle P (.call c k) Q := by
  refine .call (M := fun reply s => reply = answer ∧ M s) hP h ?_
  intro reply s s' a hs hrun
  obtain ⟨rfl, hs⟩ := hs
  exact hk s s' a hs hrun

theorem Triple.request {c : Call} {M : Reply c → σ → Prop} (hP : Stable env P)
    (hM : ∀ r, Stable env (M r)) (h : ∀ s, P s → M (handle s c).1 (handle s c).2) :
    Triple env handle P (request c) M :=
  .call hP h fun r => .done (hM r) fun _ hs => hs

theorem Triple.bind {p : Client Call Reply α} {f : α → Client Call Reply β}
    (hp : Triple env handle P p Q) (hf : ∀ a, Triple env handle (Q a) (f a) R) :
    Triple env handle P (p >>= f) R := by
  intro s s' b hs hrun
  obtain ⟨t, a, hpre, hpost⟩ := hrun.bind
  exact hf a _ _ _ (hp _ _ _ hs hpre) hpost

/-- **Frozen answers.**  If, while `P` holds, every call of a program is answered
by `answer` and keeps `P`, the program returns what it returns alone. -/
theorem Triple.translate {Call' : Type} {Reply' : Call' → Type}
    {adapt : ∀ c, Client Call Reply (Reply' c)} {answer : ∀ c, Reply' c}
    (hP : Stable env P)
    (hadapt : ∀ c, Triple env handle P (adapt c) (fun r s => r = answer c ∧ P s))
    (p : Client Call' Reply' α) :
    Triple env handle P (p.translate adapt)
      (fun a s => a = p.runWith answer ∧ P s) := by
  induction p with
  | done a => exact .done hP fun s hs => ⟨rfl, hs⟩
  | call c k ih =>
      refine (hadapt c).bind fun r => ?_
      intro s s' a hs hrun
      obtain ⟨rfl, hs⟩ := hs
      exact ih _ _ _ _ hs hrun

end Client

namespace Fallible

variable {σ ε Call : Type} {Reply : Call → Type} {α β : Type}
variable {env : σ → σ → Prop} {handle : Client.Handler σ Call Reply}

/-- A triple whose postcondition is about the outcome, an error included. -/
def Triple (env : σ → σ → Prop) (handle : Client.Handler σ Call Reply) (P : σ → Prop)
    (x : Fallible ε Call Reply α) (Q : Except ε α → σ → Prop) : Prop :=
  Client.Triple env handle P x.run Q

variable {P : σ → Prop} {Q : Except ε α → σ → Prop} {R : Except ε β → σ → Prop}

/-- An error of the first part ends the sequence. -/
theorem Triple.bind {x : Fallible ε Call Reply α} {f : α → Fallible ε Call Reply β}
    (hx : Triple env handle P x Q)
    (hf : ∀ a, Triple env handle (Q (.ok a)) (f a) R)
    (herror : ∀ e, Client.Stable env (Q (.error e)) ∧
      ∀ s, Q (.error e) s → R (.error e) s) :
    Triple env handle P (x >>= f) R := by
  refine Client.Triple.bind (p := x.run) hx ?_
  intro result
  cases result with
  | error e => exact Client.Triple.done (herror e).1 (herror e).2
  | ok a => exact hf a

/-- A change of the error type changes the outcome alone. -/
theorem Triple.mapError {ε' : Type} {x : Fallible ε Call Reply α} {f : ε → ε'}
    {r : Except ε α} {I : σ → Prop} (hI : Client.Stable env I)
    (hx : Triple env handle P x (fun r' s => r' = r ∧ I s)) :
    Triple env handle P
      (ExceptT.mk (x.run >>= fun r => Pure.pure (r.mapError f)) : Fallible ε' Call Reply α)
      (fun r' s => r' = r.mapError f ∧ I s) := by
  refine Client.Triple.bind hx ?_
  intro r'
  refine Client.Triple.done (hI.and_const _) ?_
  intro s hs
  exact ⟨congrArg (·.mapError f) hs.1, hs.2⟩

/-- Every run of `x` from a state with `I` has outcome `r` and keeps `I`. -/
def Returns (env : σ → σ → Prop) (handle : Client.Handler σ Call Reply) (I : σ → Prop)
    (x : Fallible ε Call Reply α) (r : Except ε α) : Prop :=
  Triple env handle I x (fun r' s => r' = r ∧ I s)

variable {I : σ → Prop} {r : Except ε α}

theorem Returns.ofExcept (hI : Client.Stable env I) :
    Returns env handle I (ExceptT.mk (Pure.pure r) : Fallible ε Call Reply α) r :=
  Client.Triple.done hI fun _ hs => ⟨rfl, hs⟩

theorem Returns.pure {a : α} (hI : Client.Stable env I) :
    Returns env handle I (Pure.pure a : Fallible ε Call Reply α) (.ok a) :=
  Returns.ofExcept hI

/-- One call whose answer is the same in every state with `I`. -/
theorem Returns.call {c : Call} {f : Reply c → Except ε α} (answer : Reply c)
    (hI : Client.Stable env I)
    (h : ∀ s, I s → (handle s c).1 = answer ∧ I (handle s c).2) :
    Returns env handle I
      (ExceptT.mk (Client.request c >>= fun reply => Pure.pure (f reply))) (f answer) := by
  refine Client.Triple.call (M := fun reply s => reply = answer ∧ I s) hI h ?_
  intro reply
  refine Client.Triple.done (hI.and_const _) ?_
  intro s hs
  exact ⟨congrArg f hs.1, hs.2⟩

/-- A call with one of several answers, each of which leads to `r`. -/
theorem Returns.branch {c : Call} {f : Reply c → Fallible ε Call Reply α}
    (good : Reply c → Prop) (hI : Client.Stable env I)
    (h : ∀ s, I s → good (handle s c).1 ∧ I (handle s c).2)
    (hf : ∀ reply, good reply → Returns env handle I (f reply) r) :
    Returns env handle I (ExceptT.lift (Client.request c) >>= f) r := by
  have hcall : (ExceptT.lift (Client.request c) >>= f).run =
      .call c fun reply => (f reply).run := rfl
  unfold Returns Triple
  rw [hcall]
  refine Client.Triple.call (M := fun reply s => good reply ∧ I s) hI h ?_
  intro reply s s' a hs hrun
  exact hf reply hs.1 s s' a hs.2 hrun

/-- What follows a part with a known outcome. -/
theorem Returns.then {x : Fallible ε Call Reply α} {f : α → Fallible ε Call Reply β}
    (hI : Client.Stable env I) (hx : Returns env handle I x r)
    (hf : ∀ a, r = .ok a → Triple env handle I (f a) R)
    (herror : ∀ e s, r = .error e → I s → R (.error e) s) :
    Triple env handle I (x >>= f) R := by
  refine Triple.bind hx ?_ ?_
  · intro a s s' b hs hrun
    exact hf a hs.1.symm s s' b hs.2 hrun
  · intro e
    exact ⟨hI.and_const _, fun s hs => herror e s hs.1.symm hs.2⟩

/-- A sequence returns what its parts return, one after the other. -/
theorem Returns.bind {x : Fallible ε Call Reply α} {f : α → Fallible ε Call Reply β}
    {g : α → Except ε β} (hI : Client.Stable env I) (hx : Returns env handle I x r)
    (hf : ∀ a, r = .ok a → Returns env handle I (f a) (g a)) :
    Returns env handle I (x >>= f) (r >>= g) := by
  refine Returns.then hI hx ?_ ?_
  · intro a ha
    rw [ha]
    exact hf a ha
  · intro e s he hs
    rw [he]
    exact ⟨rfl, hs⟩

/-- A program put to one part of the server, whose answers are frozen. -/
theorem Returns.translate {Call' : Type} {Reply' : Call' → Type}
    {adapt : ∀ c, Client Call Reply (Reply' c)} {answer : ∀ c, Reply' c}
    (hI : Client.Stable env I)
    (hadapt : ∀ c, Client.Triple env handle I (adapt c) (fun r s => r = answer c ∧ I s))
    (x : Fallible ε Call' Reply' α) :
    Returns env handle I (ExceptT.mk (x.run.translate adapt)) (eval answer x) :=
  Client.Triple.translate hI hadapt x.run

end Fallible

end Foundations
