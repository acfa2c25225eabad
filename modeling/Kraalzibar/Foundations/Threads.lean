import Kraalzibar.Foundations.Hoare
import Mathlib.Data.List.Infix
import Mathlib.Logic.Function.Basic
import Mathlib.Logic.Relation

/-!
# Pools of concurrent client programs

Any number of threads run client programs over one server.  A call is an atomic
step, and between two steps any other thread may run.  The pool keeps the log of
all calls in the order in which they were made.

* `Pool.Step`, `Pool.Steps` — every interleaving;
* `Pool.play` — one interleaving, computed from a schedule;
* `Safe` — what a thread guarantees, relying on the others only to keep an
  invariant of log and state;
* `Pool.Steps.ok` — safe threads keep the invariant and meet their postconditions.

`System.allows` restricts the runs that are looked at: it may forbid a thread a call
after a given log.  A safe thread has to keep the invariant only by the calls it is
allowed.
-/

namespace Foundations

variable {σ Op Call : Type} {Reply : Call → Type} {Result : Op → Type}

/-- Calls in the order in which they were made, each with its thread. -/
abbrev Log (Call : Type) := List (ℕ × Call)

structure System (σ Op Call : Type) (Reply : Call → Type) (Result : Op → Type) where
  handle : Client.Handler σ Call Reply
  env : σ → σ → Prop
  program : ∀ op, Client Call Reply (Result op)
  starts : Op → Prop := fun _ => True
  allows : Log Call → ℕ → Call → Prop := fun _ _ _ => True

/-- The same programs with every call allowed at any time. -/
def System.free (S : System σ Op Call Reply Result) : System σ Op Call Reply Result :=
  { S with allows := fun _ _ _ => True }

instance {S : System σ Op Call Reply Result} [DecidablePred S.starts] :
    DecidablePred S.free.starts :=
  inferInstanceAs (DecidablePred S.starts)

instance {S : System σ Op Call Reply Result} (log : Log Call) (i : ℕ) (c : Call) :
    Decidable (S.free.allows log i c) :=
  inferInstanceAs (Decidable True)

/-- A running operation.  `origin` is the log when it started, `program` what is left
of it to do. -/
structure Thread (Op Call : Type) (Reply : Call → Type) (Result : Op → Type) where
  op : Op
  origin : Log Call
  program : Client Call Reply (Result op)

structure Pool (σ Op Call : Type) (Reply : Call → Type) (Result : Op → Type) where
  state : σ
  threads : ℕ → Option (Thread Op Call Reply Result)
  log : Log Call

namespace Pool

def init (s : σ) : Pool σ Op Call Reply Result :=
  { state := s, threads := fun _ => none, log := [] }

variable {S : System σ Op Call Reply Result} {p q : Pool σ Op Call Reply Result}

def start (S : System σ Op Call Reply Result) (p : Pool σ Op Call Reply Result) (i : ℕ)
    (op : Op) : Pool σ Op Call Reply Result :=
  { p with threads := Function.update p.threads i (some ⟨op, p.log, S.program op⟩) }

/-- Thread `i` makes the call `c` and goes on with `k`. -/
def advance (S : System σ Op Call Reply Result) (p : Pool σ Op Call Reply Result) (i : ℕ)
    (op : Op) (origin : Log Call) (c : Call) (k : Reply c → Client Call Reply (Result op)) :
    Pool σ Op Call Reply Result :=
  { state := (S.handle p.state c).2
    threads := Function.update p.threads i
      (some ⟨op, origin, k (S.handle p.state c).1⟩)
    log := p.log ++ [(i, c)] }

inductive Step (S : System σ Op Call Reply Result) :
    Pool σ Op Call Reply Result → Pool σ Op Call Reply Result → Prop
  | start {p : Pool σ Op Call Reply Result} {i : ℕ} {op : Op} (hnew : p.threads i = none)
      (hop : S.starts op) : Step S p (p.start S i op)
  | call {p : Pool σ Op Call Reply Result} {i : ℕ} {op : Op} {origin : Log Call} {c : Call}
      {k : Reply c → Client Call Reply (Result op)}
      (hi : p.threads i = some ⟨op, origin, .call c k⟩) (hc : S.allows p.log i c) :
      Step S p (p.advance S i op origin c k)
  | env {p : Pool σ Op Call Reply Result} {t : σ} (ht : S.env p.state t) :
      Step S p { p with state := t }

abbrev Steps (S : System σ Op Call Reply Result) :
    Pool σ Op Call Reply Result → Pool σ Op Call Reply Result → Prop :=
  Relation.ReflTransGen (Step S)

/-- What thread `i` returned, if it has. -/
def returned (p : Pool σ Op Call Reply Result) (i : ℕ) : Option (Σ op, Result op) :=
  match p.threads i with
  | some ⟨op, _, .done a⟩ => some ⟨op, a⟩
  | _ => none

theorem returned_eq_some {i : ℕ} {op : Op} {a : Result op}
    (h : p.returned i = some ⟨op, a⟩) :
    ∃ origin, p.threads i = some ⟨op, origin, .done a⟩ := by
  cases hi : p.threads i with
  | none =>
      simp only [returned, hi] at h
      cases h
  | some thread =>
      obtain ⟨op', origin, program⟩ := thread
      cases program with
      | done a' =>
          simp only [returned, hi] at h
          cases h
          exact ⟨origin, rfl⟩
      | call c k =>
          simp only [returned, hi] at h
          cases h

/-- A thread after one was put in place: that one, or one that was there. -/
theorem thread_cases {threads : ℕ → Option (Thread Op Call Reply Result)} {i j : ℕ}
    {changed thread : Thread Op Call Reply Result}
    (h : Function.update threads i (some changed) j = some thread) :
    (j = i ∧ changed = thread) ∨ threads j = some thread := by
  by_cases hj : j = i
  · subst hj
    rw [Function.update_self] at h
    exact Or.inl ⟨rfl, Option.some.inj h⟩
  · rw [Function.update_of_ne hj] at h
    exact Or.inr h

/-- The log only grows. -/
theorem Step.log (h : Step S p q) : p.log <+: q.log := by
  cases h with
  | start hnew hop => exact List.prefix_rfl
  | call hi hc => exact List.prefix_append _ _
  | env ht => exact List.prefix_rfl

theorem Steps.log (h : Steps S p q) : p.log <+: q.log := by
  induction h with
  | refl => exact List.prefix_rfl
  | tail _ hstep ih => exact ih.trans hstep.log

/-- A thread that is new since `p` started after all of the log of `p`. -/
theorem Steps.origin (h : Steps S p q) {i : ℕ} {thread : Thread Op Call Reply Result}
    (hnew : p.threads i = none) (hi : q.threads i = some thread) :
    p.log <+: thread.origin := by
  induction h generalizing thread with
  | refl =>
      rw [hnew] at hi
      cases hi
  | tail hsteps hstep ih =>
      cases hstep with
      | start hfree hop =>
          obtain ⟨rfl, rfl⟩ | hi := thread_cases hi
          · exact Steps.log hsteps
          · exact ih hi
      | call hj hc =>
          obtain ⟨rfl, rfl⟩ | hi := thread_cases hi
          · have horigin := ih hj
            exact horigin
          · exact ih hi
      | env ht => exact ih hi

/-! ## Schedules -/

inductive Move (Op : Type) where
  | start (i : ℕ) (op : Op)
  | call (i : ℕ)

variable [DecidablePred S.starts] [∀ log i c, Decidable (S.allows log i c)]

variable (S) in
/-- A move that is not possible, or not allowed, is skipped. -/
def move (p : Pool σ Op Call Reply Result) : Move Op → Pool σ Op Call Reply Result
  | .start i op =>
      match p.threads i with
      | none => if S.starts op then p.start S i op else p
      | some _ => p
  | .call i =>
      match p.threads i with
      | some ⟨op, origin, .call c k⟩ =>
          if S.allows p.log i c then p.advance S i op origin c k else p
      | _ => p

variable (S) in
def play (p : Pool σ Op Call Reply Result) (moves : List (Move Op)) :
    Pool σ Op Call Reply Result :=
  moves.foldl (move S) p

theorem move_steps (m : Move Op) : Steps S p (p.move S m) := by
  cases m with
  | start i op =>
      simp only [move]
      split
      · next hnew =>
          by_cases hop : S.starts op
          · rw [if_pos hop]
            exact .single (.start hnew hop)
          · rw [if_neg hop]
      · exact .refl
  | call i =>
      simp only [move]
      split
      · next op origin c k hi =>
          by_cases hc : S.allows p.log i c
          · rw [if_pos hc]
            exact .single (.call hi hc)
          · rw [if_neg hc]
      · exact .refl

/-- A schedule plays one of the interleavings. -/
theorem play_steps (moves : List (Move Op)) : Steps S p (p.play S moves) := by
  induction moves generalizing p with
  | nil => exact .refl
  | cons m moves ih => exact (move_steps m).trans ih

end Pool

/-! ## Rely and guarantee -/

section

variable {α β : Type} (S : System σ Op Call Reply Result) (inv : Log Call → σ → Prop)

/-- Thread `i`, which went on last when the log was `log`, keeps the invariant by its
calls and returns with `post`, whatever calls the others make that keep it too. -/
def Safe (i : ℕ) (post : Log Call → α → Prop) : Log Call → Client Call Reply α → Prop
  | log, .done a => post log a
  | log, .call c k => ∀ later s, log <+: later → inv later s → S.allows later i c →
      inv (later ++ [(i, c)]) (S.handle s c).2 ∧
        Safe i post (later ++ [(i, c)]) (k (S.handle s c).1)

variable {S inv} {i : ℕ} {log : Log Call} {post : Log Call → α → Prop}

theorem Safe.call {c : Call} {k : Reply c → Client Call Reply α}
    (h : ∀ later s, log <+: later → inv later s → S.allows later i c →
      inv (later ++ [(i, c)]) (S.handle s c).2 ∧
        Safe S inv i post (later ++ [(i, c)]) (k (S.handle s c).1)) :
    Safe S inv i post log (.call c k) :=
  h

theorem Safe.bind {p : Client Call Reply α} {f : α → Client Call Reply β}
    {post' : Log Call → β → Prop} (hp : Safe S inv i post log p)
    (hf : ∀ later a, log <+: later → post later a → Safe S inv i post' later (f a)) :
    Safe S inv i post' log (p >>= f) := by
  induction p generalizing log with
  | done a => exact hf log a List.prefix_rfl hp
  | call c k ih =>
      intro later s hlog hs hc
      obtain ⟨hinv, hk⟩ := hp later s hlog hs hc
      refine ⟨hinv, ih _ hk ?_⟩
      intro final a hlater ha
      exact hf final a (hlog.trans ((List.prefix_append _ _).trans hlater)) ha

theorem Safe.imp {post' : Log Call → α → Prop} {p : Client Call Reply α}
    (hp : Safe S inv i post log p) (hpost : ∀ log a, post log a → post' log a) :
    Safe S inv i post' log p := by
  induction p generalizing log with
  | done a => exact hpost log a hp
  | call c k ih =>
      intro later s hlog hs hc
      obtain ⟨hinv, hk⟩ := hp later s hlog hs hc
      exact ⟨hinv, ih _ hk⟩

/-- An error of the first part ends the sequence. -/
theorem Safe.andThen {ε : Type} {x : Fallible ε Call Reply α}
    {f : α → Fallible ε Call Reply β} {M : Log Call → Except ε α → Prop}
    {post' : Log Call → Except ε β → Prop} (hx : Safe S inv i M log x.run)
    (hok : ∀ later a, log <+: later → M later (.ok a) →
      Safe S inv i post' later (f a).run)
    (herror : ∀ later e, log <+: later → M later (.error e) → post' later (.error e)) :
    Safe S inv i post' log (x >>= f).run := by
  refine Safe.bind (p := x.run) hx ?_
  intro later result hlog hresult
  cases result with
  | error e => exact herror later e hlog hresult
  | ok a => exact hok later a hlog hresult

/-- **Frozen answers.**  If, while the invariant and `K` hold, every call of a program
is answered by `answer` and keeps both, it returns what it returns alone. -/
theorem Safe.translate {Call' : Type} {Reply' : Call' → Type}
    {adapt : ∀ c, Client Call Reply (Reply' c)} {answer : ∀ c, Reply' c}
    {K : Log Call → Prop} (hlog : K log)
    (hadapt : ∀ c log, K log →
      Safe S inv i (fun log r => r = answer c ∧ K log) log (adapt c))
    (p : Client Call' Reply' α) :
    Safe S inv i (fun log a => a = p.runWith answer ∧ K log) log (p.translate adapt) := by
  induction p generalizing log with
  | done a => exact ⟨rfl, hlog⟩
  | call c k ih =>
      refine Safe.bind (hadapt c log hlog) ?_
      intro later r _ hr
      obtain ⟨rfl, hlater⟩ := hr
      exact ih _ hlater

end

namespace Pool

variable (S : System σ Op Call Reply Result) (inv : Log Call → σ → Prop)
variable (post : ℕ → ∀ op, Log Call → Log Call → Result op → Prop)

/-- The invariant holds, and every thread is safe for what it still has to do. -/
structure Ok (p : Pool σ Op Call Reply Result) : Prop where
  keeps : inv p.log p.state
  safe : ∀ i thread, p.threads i = some thread → ∃ log, log <+: p.log ∧
    Safe S inv i (post i thread.op thread.origin) log thread.program

variable {S inv post} {p q : Pool σ Op Call Reply Result}

theorem Ok.init {s : σ} (h : inv [] s) : Ok S inv post (init s) where
  keeps := h
  safe := by
    intro i thread hi
    cases hi

/-- One step keeps a pool safe, when new threads are. -/
theorem Step.ok
    (hspec : ∀ i op origin, S.starts op →
      Safe S inv i (post i op origin) origin (S.program op))
    (henv : ∀ log s t, inv log s → S.env s t → inv log t)
    (h : Step S p q) (hp : Ok S inv post p) : Ok S inv post q := by
  cases h with
  | @start i op hnew hop =>
      refine ⟨hp.keeps, ?_⟩
      intro j thread hj
      obtain ⟨rfl, rfl⟩ | hj := thread_cases hj
      · exact ⟨p.log, List.prefix_rfl, hspec j op p.log hop⟩
      · exact hp.safe j thread hj
  | @call i op origin c k hi hc =>
      obtain ⟨log, hlog, hsafe⟩ := hp.safe i _ hi
      obtain ⟨hinv, hk⟩ := hsafe p.log p.state hlog hp.keeps hc
      refine ⟨hinv, ?_⟩
      intro j thread hj
      obtain ⟨rfl, rfl⟩ | hj := thread_cases hj
      · exact ⟨_, List.prefix_rfl, hk⟩
      · obtain ⟨log, hlog, hsafe⟩ := hp.safe j thread hj
        exact ⟨log, hlog.trans (List.prefix_append _ _), hsafe⟩
  | env ht => exact ⟨henv _ _ _ hp.keeps ht, hp.safe⟩

/-- **Safe threads keep a pool safe** through every interleaving. -/
theorem Steps.ok
    (hspec : ∀ i op origin, S.starts op →
      Safe S inv i (post i op origin) origin (S.program op))
    (henv : ∀ log s t, inv log s → S.env s t → inv log t)
    (h : Steps S p q) (hp : Ok S inv post p) : Ok S inv post q := by
  induction h with
  | refl => exact hp
  | tail _ hstep ih => exact hstep.ok hspec henv ih

/-- A thread that has returned met its postcondition. -/
theorem Ok.returned {i : ℕ} {op : Op} {a : Result op} (hp : Ok S inv post p)
    (hi : p.returned i = some ⟨op, a⟩) :
    ∃ origin log, p.threads i = some ⟨op, origin, .done a⟩ ∧ log <+: p.log ∧
      post i op origin log a := by
  obtain ⟨origin, hi⟩ := returned_eq_some hi
  obtain ⟨log, hlog, hpost⟩ := hp.safe i _ hi
  exact ⟨origin, log, hi, hlog, hpost⟩

/-- **One thread after another.**  When thread `j` starts after thread `i` has returned,
the log at which `i` met its postcondition is a prefix of the one at which `j` started. -/
theorem Steps.sequential {s : σ}
    (hspec : ∀ i op origin, S.starts op →
      Safe S inv i (post i op origin) origin (S.program op))
    (henv : ∀ log s t, inv log s → S.env s t → inv log t) (hinit : inv [] s)
    (hp : Steps S (Pool.init s) p) (hq : Steps S p q) {i j : ℕ} {op op' : Op}
    {a : Result op} {b : Result op'} (hi : p.returned i = some ⟨op, a⟩)
    (hnew : p.threads j = none) (hj : q.returned j = some ⟨op', b⟩) :
    ∃ origin log origin' log', log <+: origin' ∧ log' <+: q.log ∧
      post i op origin log a ∧ post j op' origin' log' b := by
  have hpOk := hp.ok hspec henv (Ok.init hinit)
  have hqOk := hq.ok hspec henv hpOk
  obtain ⟨origin, log, _, hlog, ha⟩ := hpOk.returned hi
  obtain ⟨origin', log', hthread, hlog', hb⟩ := hqOk.returned hj
  have hstarted := hq.origin hnew hthread
  exact ⟨origin, log, origin', log', hlog.trans hstarted, hlog', ha, hb⟩

end Pool

end Foundations
