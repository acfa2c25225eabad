import Mathlib.Data.List.Chain

/-!
# Client programs with atomic calls

A client computes with the replies of a server whose state it cannot hold on
to: between two calls other parties may move the server.  A `Client` is the
tree of its calls.  It has two readings.

* `Client.runWith` — every call is answered by one fixed function: the program
  runs alone against an unchanging server.
* `Client.Run` — the server's state takes environment steps between the calls.
  The run records every state that was current, in order.

Two rules carry over results about running alone.  By `Client.Run.eq_runWith`,
if an invariant is kept by every environment step and under it each call the
program can make has a fixed answer, every interleaved run returns what the
program returns alone.  By `Client.Run.failed`, a program that stops at a bad
reply fails when its first call gets one.
-/

namespace Foundations

/-- A program that may make calls `c`, each resumed with a `Reply c`. -/
inductive Client (Call : Type) (Reply : Call → Type) (α : Type) where
  | done (a : α)
  | call (c : Call) (k : Reply c → Client Call Reply α)

namespace Client

variable {Call : Type} {Reply : Call → Type} {α β : Type}

protected def bind : Client Call Reply α → (α → Client Call Reply β) →
    Client Call Reply β
  | .done a, f => f a
  | .call c k, f => .call c (fun r => (k r).bind f)

instance : Monad (Client Call Reply) where
  pure := .done
  bind := Client.bind

/-- The program that makes one call and returns its reply. -/
def request (c : Call) : Client Call Reply (Reply c) :=
  .call c .done

instance : LawfulMonad (Client Call Reply) := by
  refine LawfulMonad.mk' (Client Call Reply) ?_ (fun _ _ => rfl) ?_
  · intro α p
    induction p with
    | done a => rfl
    | call c k ih => exact congrArg (Client.call c) (funext ih)
  · intro α β γ p f g
    induction p with
    | done a => rfl
    | call c k ih => exact congrArg (Client.call c) (funext ih)

/-! ## Running alone -/

/-- The result when every call `c` is answered by `answer c`. -/
def runWith (answer : ∀ c, Reply c) : Client Call Reply α → α
  | .done a => a
  | .call c k => (k (answer c)).runWith answer

@[simp] theorem runWith_call (answer : ∀ c, Reply c) (c : Call)
    (k : Reply c → Client Call Reply α) :
    (Client.call c k).runWith answer = (k (answer c)).runWith answer := rfl

@[simp] theorem runWith_bind (answer : ∀ c, Reply c)
    (p : Client Call Reply α) (f : α → Client Call Reply β) :
    (p >>= f).runWith answer = (f (p.runWith answer)).runWith answer := by
  induction p with
  | done a => rfl
  | call c k ih => exact ih (answer c)

/-- Rewrite every call into a program over other calls: the adapter between a
component and the server it is run against. -/
def translate {Call' : Type} {Reply' : Call' → Type}
    (adapt : ∀ c, Client Call' Reply' (Reply c)) :
    Client Call Reply α → Client Call' Reply' α
  | .done a => .done a
  | .call c k => adapt c >>= fun r => (k r).translate adapt

/-- Running a translated program is running the original with the adapter's
answers. -/
@[simp] theorem runWith_translate {Call' : Type} {Reply' : Call' → Type}
    (adapt : ∀ c, Client Call' Reply' (Reply c)) (answer : ∀ c, Reply' c)
    (p : Client Call Reply α) :
    (p.translate adapt).runWith answer =
      p.runWith (fun c => (adapt c).runWith answer) := by
  induction p with
  | done a => rfl
  | call c k ih => simp [translate, ih]

/-- Every call the program can make satisfies `P`, and a `bad` reply ends the
program at once with a result that `failed`. -/
inductive Guarded (P : Call → Prop) (bad : ∀ c, Reply c → Prop) (failed : α → Prop) :
    Client Call Reply α → Prop
  | done (a : α) : Guarded P bad failed (.done a)
  | call {c : Call} {k : Reply c → Client Call Reply α} (hc : P c)
      (habort : ∀ r, bad c r → ∃ a, k r = .done a ∧ failed a)
      (hk : ∀ r, Guarded P bad failed (k r)) : Guarded P bad failed (.call c k)

section

variable {P : Call → Prop} {bad : ∀ c, Reply c → Prop} {failed : α → Prop}

theorem Guarded.request {c : Call} {failed : Reply c → Prop} (hc : P c)
    (hfailed : ∀ r, bad c r → failed r) :
    Guarded P bad failed (request c : Client Call Reply _) :=
  .call hc (fun r hr => ⟨r, rfl, hfailed r hr⟩) .done

/-- A continuation that passes failure on keeps a program guarded. -/
theorem Guarded.bind {failed' : β → Prop} {p : Client Call Reply α}
    {f : α → Client Call Reply β} (hp : Guarded P bad failed p)
    (hf : ∀ a, Guarded P bad failed' (f a))
    (hfailed : ∀ a, failed a → ∃ b, f a = .done b ∧ failed' b) :
    Guarded P bad failed' (p >>= f) := by
  induction hp with
  | done a => exact hf a
  | call hc habort _ ih =>
      refine .call hc ?_ ih
      intro r hr
      obtain ⟨a, hdone, ha⟩ := habort r hr
      obtain ⟨b, hb, hb'⟩ := hfailed a ha
      refine ⟨b, ?_, hb'⟩
      rw [hdone]
      exact hb

/-- An adapter that answers badly when its own call does keeps a program
guarded. -/
theorem Guarded.translate {Call' : Type} {Reply' : Call' → Type}
    {P' : Call' → Prop} {bad' : ∀ c, Reply' c → Prop}
    {adapt : ∀ c, Client Call' Reply' (Reply c)} {p : Client Call Reply α}
    (hadapt : ∀ c, P c → Guarded P' bad' (bad c) (adapt c))
    (hp : Guarded P bad failed p) : Guarded P' bad' failed (p.translate adapt) := by
  induction hp with
  | done a => exact .done a
  | call hc habort _ ih =>
      refine (hadapt _ hc).bind ih ?_
      intro r hr
      obtain ⟨a, hdone, ha⟩ := habort r hr
      exact ⟨a, by rw [hdone]; rfl, ha⟩

end

/-! ## Running among other parties -/

/-- `Run env answer s p states reads a`: started in server state `s`, the program
returns `a`, with `env` steps of the server between its calls.  `states` are
the server states current during the run, from the first to the last, and
`reads` those in which its calls were answered, in order. -/
inductive Run {σ : Type} (env : σ → σ → Prop) (answer : σ → ∀ c, Reply c) :
    σ → Client Call Reply α → List σ → List σ → α → Prop
  | done (s : σ) (a : α) : Run env answer s (.done a) [s] [] a
  | call {s : σ} {c : Call} {k : Reply c → Client Call Reply α}
      {states reads : List σ} {a : α}
      (rest : Run env answer s (k (answer s c)) states reads a) :
      Run env answer s (.call c k) states (s :: reads) a
  | env {s s' : σ} {p : Client Call Reply α} {states reads : List σ} {a : α}
      (hstep : env s s') (rest : Run env answer s' p states reads a) :
      Run env answer s p (s :: states) reads a

/-- The result when the successive calls are answered in the given states, if
there are enough of them. -/
def replay {σ : Type} (answer : σ → ∀ c, Reply c) :
    Client Call Reply α → List σ → Option α
  | .done a, _ => some a
  | .call _ _, [] => none
  | .call c k, s :: states => replay answer (k (answer s c)) states

variable {σ : Type} {env : σ → σ → Prop} {answer : σ → ∀ c, Reply c}
variable {s : σ} {p : Client Call Reply α} {states reads : List σ} {a : α}

/-- The states of a run start with the state it started in. -/
theorem Run.head_states (h : Run env answer s p states reads a) :
    states.head? = some s := by
  induction h with
  | done s a => rfl
  | call rest ih => exact ih
  | env hstep rest ih => rfl

/-- A call is answered in a state current during the run. -/
theorem Run.reads_subset (h : Run env answer s p states reads a) :
    ∀ t ∈ reads, t ∈ states := by
  induction h with
  | done s a => simp
  | call rest ih =>
      intro t ht
      rcases List.mem_cons.mp ht with rfl | ht
      · exact List.mem_of_mem_head? rest.head_states
      · exact ih t ht
  | env hstep rest ih =>
      intro t ht
      exact List.mem_cons_of_mem _ (ih t ht)

/-- What environment steps keep, and holds at the start, holds in every state
of the run. -/
theorem Run.forall_states {I : σ → Prop} (hI : ∀ s s', I s → env s s' → I s')
    (h : Run env answer s p states reads a) (hs : I s) : ∀ t ∈ states, I t := by
  induction h with
  | done s a => simpa using hs
  | call rest ih => exact ih hs
  | env hstep rest ih =>
      intro t ht
      rcases List.mem_cons.mp ht with rfl | ht
      · exact hs
      · exact ih (hI _ _ hs hstep) t ht

/-- Along the calls, the server only moves forward. -/
theorem Run.pairwise_reads (le : σ → σ → Prop) (hrefl : ∀ s, le s s)
    (htrans : ∀ s t u, le s t → le t u → le s u) (hstep : ∀ s t, env s t → le s t)
    (h : Run env answer s p states reads a) :
    (∀ t ∈ reads, le s t) ∧ reads.Pairwise le := by
  induction h with
  | done s a => simp
  | call rest ih =>
      refine ⟨?_, List.pairwise_cons.mpr ih⟩
      intro t ht
      rcases List.mem_cons.mp ht with rfl | ht
      · exact hrefl t
      · exact ih.1 t ht
  | env henv rest ih =>
      exact ⟨fun t ht => htrans _ _ _ (hstep _ _ henv) (ih.1 t ht), ih.2⟩

/-- A run's result is determined by the states that answered its calls. -/
theorem Run.replay_reads (h : Run env answer s p states reads a) :
    replay answer p reads = some a := by
  induction h with
  | done s a => rfl
  | call rest ih => exact ih
  | env hstep rest ih => exact ih

/-- After its first call, a program runs on from the state that answered it. -/
theorem Run.after_first {c : Call} {k : Reply c → Client Call Reply α} {t : σ}
    (h : Run env answer s (.call c k) states reads a) (hfirst : reads.head? = some t) :
    ∃ states' reads', Run env answer t (k (answer t c)) states' reads' a := by
  generalize hp : Client.call c k = p at h
  induction h with
  | done s a => cases hfirst
  | @call s c' k' states reads a rest ih =>
      cases hp
      obtain rfl := Option.some.inj hfirst
      exact ⟨states, reads, rest⟩
  | env hstep rest ih => exact ih hfirst hp

/-- Replays depend only on the answers to the calls a program makes. -/
theorem replay_congr {answer' : σ → ∀ c, Reply c} {P : Call → Prop}
    {bad : ∀ c, Reply c → Prop} {failed : α → Prop} (hp : Guarded P bad failed p)
    (hanswer : ∀ s ∈ reads, ∀ c, P c → answer s c = answer' s c) :
    replay answer p reads = replay answer' p reads := by
  induction hp generalizing reads with
  | done a' => rfl
  | call hc _ _ ih =>
      cases reads with
      | nil => rfl
      | cons s reads =>
          rw [replay, replay, ← hanswer s List.mem_cons_self _ hc]
          exact ih _ (fun t ht => hanswer t (List.mem_cons_of_mem s ht))

/-- Replaying calls that are all answered alike is running alone. -/
theorem replay_eq_runWith {answer' : ∀ c, Reply c} {P : Call → Prop}
    {bad : ∀ c, Reply c → Prop} {failed : α → Prop} (hp : Guarded P bad failed p)
    (hanswer : ∀ s ∈ reads, ∀ c, P c → answer s c = answer' c)
    (h : replay answer p reads = some a) : a = p.runWith answer' := by
  induction hp generalizing reads with
  | done a' => exact (Option.some.inj h).symm
  | call hc _ _ ih =>
      cases reads with
      | nil => cases h
      | cons s reads =>
          rw [runWith_call, ← hanswer s List.mem_cons_self _ hc]
          exact ih _ (fun t ht => hanswer t (List.mem_cons_of_mem s ht)) h

/-- **Isolation rule.**  Let `I` be kept by the environment, and let every call
satisfying `P` have the answer `frozen c` in every state with `I`.  A program
that makes only such calls, and makes its first one in a state with `I`,
returns in every interleaving what it returns alone with the frozen answers. -/
theorem Run.eq_runWith {I : σ → Prop} {P : Call → Prop} {frozen : ∀ c, Reply c}
    {bad : ∀ c, Reply c → Prop} {failed : α → Prop}
    (hI : ∀ s s', I s → env s s' → I s')
    (hfrozen : ∀ s c, I s → P c → answer s c = frozen c)
    (h : Run env answer s p states reads a) (hp : Guarded P bad failed p)
    (hfirst : ∀ t ∈ reads.head?, I t) : a = p.runWith frozen := by
  refine replay_eq_runWith hp ?_ h.replay_reads
  -- every call is answered at or after the first one
  have hall : ∀ t ∈ reads, I t := by
    clear hp
    induction h with
    | done s a => simp
    | @call s c k states reads a rest ih =>
        have hs : I s := hfirst s rfl
        intro t ht
        rcases List.mem_cons.mp ht with rfl | ht
        · exact hs
        · exact rest.forall_states hI hs t (rest.reads_subset t ht)
    | env hstep rest ih => exact ih hfirst
  exact fun t ht c hc => hfrozen t c (hall t ht) hc

/-- **Abort rule.**  A guarded program whose first call gets a bad reply fails,
whatever the server does afterwards. -/
theorem Run.failed {P : Call → Prop} {bad : ∀ c, Reply c → Prop} {failed : α → Prop}
    {t : σ} (h : Run env answer s p states reads a) (hp : Guarded P bad failed p)
    (hfirst : reads.head? = some t) (hbad : ∀ c, P c → bad c (answer t c)) :
    failed a := by
  induction h with
  | done s a => cases hfirst
  | call rest ih =>
      obtain rfl := Option.some.inj hfirst
      cases hp with
      | call hc habort _ =>
          obtain ⟨b, hdone, hb⟩ := habort _ (hbad _ hc)
          have hret := rest.replay_reads
          rw [hdone] at hret
          obtain rfl : b = _ := Option.some.inj (by simpa [replay] using hret)
          exact hb
  | env hstep rest ih => exact ih hp hfirst

end Client

end Foundations
