import Kraalzibar.Foundations.Contracts
import Kraalzibar.Foundations.Threads

/-!
# Programs that run at one moment

Between two queries of a program the server may move.  If what the first query is asked
about never changes afterwards, or its reply ends the program, the program returns what
it returns alone at the moment of that query.

* `Safe.translate_fixed` — a program whose answers are fixed since a moment;
* `Safe.translate_at` — a program that is answered at the moment of its first query;
* `Client.Meets.safe` — contracts inside a pool;
* `Pool.Steps.ok_since` — threads that start later;
* `System.within`, `Pool.Steps.within` — runs while the log satisfies a condition.
-/

namespace Foundations

namespace Client

variable {Call : Type} {Reply : Call → Type} {α : Type}
variable {P : Call → Prop} {bad : ∀ c, Reply c → Prop} {failed : α → Prop}
variable {answer answer' : ∀ c, Reply c} {p : Client Call Reply α}

/-- Running alone depends on the answers to the calls a program makes. -/
theorem Guarded.runWith_congr (hp : Guarded P bad failed p)
    (h : ∀ c, P c → answer c = answer' c) : p.runWith answer = p.runWith answer' := by
  induction hp with
  | done a => rfl
  | call hc _ _ ih =>
      rw [runWith_call, runWith_call, ← h _ hc]
      exact ih _

/-- When every reply is bad, a program makes no call or fails. -/
theorem Guarded.done_or_failed (hp : Guarded P bad failed p)
    (hbad : ∀ c, P c → bad c (answer c)) : (∃ a, p = .done a) ∨ failed (p.runWith answer) := by
  cases hp with
  | done a => exact Or.inl ⟨a, rfl⟩
  | call hc habort _ =>
      obtain ⟨a, hdone, ha⟩ := habort _ (hbad _ hc)
      refine Or.inr ?_
      rw [runWith_call, hdone]
      exact ha

end Client

variable {σ Op Call : Type} {Reply : Call → Type} {Result : Op → Type} {α : Type}

section

variable {S : System σ Op Call Reply Result} {inv : Log Call → σ → Prop} {i : ℕ}
variable {log : Log Call}

/-- **Contracts inside a pool.**  Where the calls a program makes keep the invariant and
are answered well, its contract holds. -/
theorem Client.Meets.safe {pre : Call → Prop} {good : ∀ c, Reply c → Prop} {post : α → Prop}
    {p : Client Call Reply α} (hp : p.Meets pre good post)
    (hcall : ∀ log s c, inv log s → S.allows log i c → pre c →
      inv (log ++ [(i, c)]) (S.handle s c).2 ∧ good c (S.handle s c).1) :
    Safe S inv i (fun _ a => post a) log p := by
  induction p generalizing log with
  | done a => exact hp
  | call c k ih =>
      intro later s _ hs hallowed
      obtain ⟨hinv, hgood⟩ := hcall later s c hs hallowed hp.1
      exact ⟨hinv, ih _ (hp.2 _ hgood)⟩

/-- Where every call keeps the invariant, so does every program. -/
theorem Safe.trivial
    (hcall : ∀ log s c, inv log s → S.allows log i c → inv (log ++ [(i, c)]) (S.handle s c).2)
    (p : Client Call Reply α) : Safe S inv i (fun _ _ => True) log p := by
  have hany : p.Meets (fun _ => True) (fun _ _ => True) (fun _ => True) :=
    Client.Meets.trivial p
  exact hany.safe fun log s c hs hallowed _ => ⟨hcall log s c hs hallowed, True.intro⟩

variable {Call' : Type} {Reply' : Call' → Type} {adapt : ∀ c, Client Call Reply (Reply' c)}
variable {answers : Log Call → ∀ c, Reply' c} {K : Log Call → Prop}
variable {P : Call' → Prop} {bad : ∀ c, Reply' c → Prop} {failed : α → Prop}

/-- **Answers fixed since a moment.**  While `K` holds, each query is answered at some
moment of its own, and the answers are those of `moment`. -/
theorem Safe.translate_fixed {moment : Log Call} {p : Client Call' Reply' α}
    (hadapt : ∀ c log, Safe S inv i (fun later r => ∃ before, log <+: before ∧
      before <+: later ∧ K before ∧ K later ∧ r = answers before c) log (adapt c))
    (hfixed : ∀ later, moment <+: later → K later → ∀ c, P c →
      answers later c = answers moment c)
    (hp : p.Guarded P bad failed) (hmoment : moment <+: log) (hlog : K log) :
    Safe S inv i (fun later a => log <+: later ∧ K later ∧ a = p.runWith (answers moment))
      log (p.translate adapt) := by
  induction hp generalizing log with
  | done a => exact ⟨List.prefix_rfl, hlog, rfl⟩
  | call hc _ _ ih =>
      refine Safe.bind (hadapt _ log) ?_
      intro later r _ hr
      obtain ⟨before, hbefore, hlater, hK, hKlater, rfl⟩ := hr
      rw [hfixed before (hmoment.trans hbefore) hK _ hc]
      refine Safe.imp (ih _ ((hmoment.trans hbefore).trans hlater) hKlater) ?_
      intro final a ha
      exact ⟨(hbefore.trans hlater).trans ha.1, ha.2⟩

/-- **Answers of the first query.**  At every moment either the answers are fixed from
then on, or every reply is bad and ends the program. -/
theorem Safe.translate_at {p : Client Call' Reply' α}
    (hadapt : ∀ c log, Safe S inv i (fun later r => ∃ before, log <+: before ∧
      before <+: later ∧ K before ∧ K later ∧ r = answers before c) log (adapt c))
    (hfixed : ∀ moment, K moment →
      (∀ later, moment <+: later → K later → ∀ c, P c →
        answers later c = answers moment c) ∨ ∀ c, P c → bad c (answers moment c))
    (hp : p.Guarded P bad failed) (hlog : K log) :
    Safe S inv i (fun later a => ∃ moment, log <+: moment ∧ moment <+: later ∧ K moment ∧
      K later ∧ a = p.runWith (answers moment)) log (p.translate adapt) := by
  cases hp with
  | done a => exact ⟨log, List.prefix_rfl, List.prefix_rfl, hlog, hlog, rfl⟩
  | @call c k hc habort hk =>
      refine Safe.bind (hadapt c log) ?_
      intro later r _ hr
      obtain ⟨moment, hmoment, hlater, hK, hKlater, rfl⟩ := hr
      obtain hfix | hbad := hfixed moment hK
      · refine Safe.imp (Safe.translate_fixed hadapt hfix (hk _) hlater hKlater) ?_
        intro final a ha
        exact ⟨moment, hmoment, hlater.trans ha.1, hK, ha.2⟩
      · obtain ⟨a, hdone, -⟩ := habort _ (hbad c hc)
        rw [hdone]
        refine ⟨moment, hmoment, hlater, hK, hKlater, ?_⟩
        rw [Client.runWith_call, hdone]
        rfl

end

/-- **Threads that start later.**  From a state with an invariant that every call keeps,
the threads that are new meet their postconditions. -/
theorem Pool.Steps.ok_since {S : System σ Op Call Reply Result} {inv : Log Call → σ → Prop}
    {post : ℕ → ∀ op, Log Call → Log Call → Result op → Prop}
    {p q : Pool σ Op Call Reply Result}
    (hspec : ∀ i op origin, S.starts op →
      Safe S inv i (post i op origin) origin (S.program op))
    (hcall : ∀ i log s c, inv log s → S.allows log i c →
      inv (log ++ [(i, c)]) (S.handle s c).2)
    (henv : ∀ log s t, inv log s → S.env s t → inv log t) (h : Pool.Steps S p q)
    (hp : inv p.log p.state) :
    Pool.Ok S inv (fun i op origin log r => p.threads i = none → post i op origin log r) q := by
  refine h.ok ?_ henv ⟨hp, ?_⟩
  · exact fun i op origin hop => Safe.imp (hspec i op origin hop) fun _ _ hr _ => hr
  · intro i thread hi
    refine ⟨p.log, List.prefix_rfl, Safe.imp (Safe.trivial (hcall i) thread.program) ?_⟩
    intro log r _ hnone
    rw [hnone] at hi
    cases hi

/-! ## Runs with a bounded log -/

/-- The same system, as long as the log satisfies `K`. -/
def System.within (S : System σ Op Call Reply Result) (K : Log Call → Prop) :
    System σ Op Call Reply Result :=
  { S with allows := fun log i c => S.allows log i c ∧ K (log ++ [(i, c)]) }

/-- A run with a good log was within good logs all the time. -/
theorem Pool.Steps.within {S : System σ Op Call Reply Result} {K : Log Call → Prop}
    (hK : ∀ log later, log <+: later → K later → K log)
    {p q : Pool σ Op Call Reply Result} (h : Pool.Steps S p q) (hq : K q.log) :
    Pool.Steps (S.within K) p q := by
  induction h with
  | refl => exact .refl
  | tail _ hstep ih =>
      have hsteps := ih (hK _ _ hstep.log hq)
      refine hsteps.tail ?_
      cases hstep with
      | start hnew hop => exact .start (S := S.within K) hnew hop
      | call hi hc => exact .call (S := S.within K) hi ⟨hc, hq⟩
      | env ht => exact .env (S := S.within K) ht

end Foundations
