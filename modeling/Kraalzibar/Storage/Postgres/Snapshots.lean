import Kraalzibar.Storage.Postgres.Transactions

/-!
# Reads at one token, over time

A write draws its token before its first statement, and `current_tx_id` reads the
sequence, so a token can be read while its write is still running.  The commit
then changes the rows below a token that was read already.

* `SettledFor` — no write up to the token that concerns a matching tuple is running;
* `Stable.effect` — from then on no step changes what the read returns;
* `settled_reads_agree` — reads at settled tokens agree with each other;
* `unsettled_reads_differ` — a read at an unsettled token and a later one do not.
-/

namespace Kraalzibar.Postgres

open Foundations

namespace Tenant

/-- No write with a token up to `s` that deletes or touches a tuple the filter
matches is still running. -/
def SettledFor (c : Tenant) (filter : TupleFilter) (s : Nat) : Prop :=
  ∀ k ≤ s, c.Running k → ∀ t, filter.matches t = true → ¬ (c.write k).Affects t

/-- No write with a token up to `s` is still running. -/
def Settled (c : Tenant) (s : Nat) : Prop :=
  ∀ k ≤ s, ¬ c.Running k

variable {c : Tenant} {a : Action} {k s : Nat} {t : Tuple}

theorem running_put {heap : List Row} {w : Write} {j : Nat}
    (hw : w.status = .running → c.Running k) (hj : (c.put heap k w).Running j) :
    c.Running j := by
  unfold Running at *
  by_cases hjk : j = k
  · subst hjk
    rw [write_put_self] at hj
    exact hw hj
  · rwa [write_put_ne hjk] at hj

/-- Only a new token starts running. -/
theorem running_effect (h : Wf c) (ha : c.Enabled a) {j : Nat}
    (hj : (c.effect a).Running j) : c.Running j ∨ c.seq.currentTxId < j := by
  cases a with
  | begin call =>
      obtain ⟨htoken, -, -⟩ := Sequence.nextval_eq h.seq
      simp only [effect] at hj
      split at hj
      · exact Or.inl hj
      · by_cases hnew : j = c.seq.nextval.1
        · right
          omega
        · unfold Running at *
          rw [write_put_ne hnew] at hj
          exact Or.inl hj
  | startDelete k filter => exact Or.inl (running_put (fun _ => ha.1) hj)
  | visit k i => exact Or.inl (running_put (fun _ => ha.1) hj)
  | insert k write => exact Or.inl (running_put (fun _ => ha.1) hj)
  | commit k => exact Or.inl (running_put (fun _ => ha.1) hj)
  | rollback k => exact Or.inl (running_put (fun _ => ha) hj)
  | check filter snapshot => exact Or.inl hj
  | select filter snapshot => exact Or.inl hj

theorem currentTxId_effect (h : Wf c) (a : Action) :
    c.seq.currentTxId ≤ (c.effect a).seq.currentTxId := by
  cases a with
  | begin call =>
      obtain ⟨-, hcurrent, -⟩ := Sequence.nextval_eq h.seq
      simp only [effect]
      split
      · show _ ≤ c.seq.nextval.2.currentTxId
        omega
      · show _ ≤ c.seq.nextval.2.currentTxId
        omega
  | startDelete k filter => exact le_rfl
  | visit k i => exact le_rfl
  | insert k write => exact le_rfl
  | commit k => exact le_rfl
  | rollback k => exact le_rfl
  | check filter snapshot => exact le_rfl
  | select filter snapshot => exact le_rfl

theorem counts_commit {j : Nat} (hj : j ≠ k) :
    (c.effect (.commit k)).counts none j = c.counts none j := by
  unfold counts
  rw [effect, write_put_ne hj]

/-- A commit changes nothing for the tuples it does not concern, and nothing below
its own token: the rows it adds come later, and those it stamps were and stay visible
there. -/
theorem visible_commit (h : Wf c) (hmarked : Marked c) (hrun : c.Running k)
    (hs : s < k ∨ ¬ (c.write k).Affects t) :
    t ∈ Version.visible (versions ((c.effect (.commit k)).snapshotRows none)) s ↔
      t ∈ Version.visible (versions (c.snapshotRows none)) s := by
  rw [mem_visible_snapshotRows, mem_visible_snapshotRows]
  obtain ⟨-, -, htop⟩ := h.bounds k (Wf.used hrun)
  refine exists_congr fun r => and_congr_right fun hr => and_congr_right fun ht => ?_
  have hcreated : r.createdTxId ≤ s → (c.effect (.commit k)).counts none r.createdTxId =
      c.counts none r.createdTxId := by
    intro hle
    apply counts_commit
    intro heq
    obtain rfl := heq
    rcases hs with hlt | hnot
    · omega
    · exact hnot (ht ▸ hmarked.created r hr)
  have hdeleted : (s < if (c.effect (.commit k)).counts none r.deletedTxId then
      r.deletedTxId else ACTIVE_TX_ID) ↔
      s < if c.counts none r.deletedTxId then r.deletedTxId else ACTIVE_TX_ID := by
    by_cases hk : r.deletedTxId = k
    · rcases hs with hlt | hnot
      · rw [hk]
        refine iff_of_true ?_ ?_
        · split <;> omega
        · split <;> omega
      · rcases hmarked.deleted r hr with hactive | haff
        · omega
        · rw [hk, ht] at haff
          exact absurd haff hnot
    · rw [counts_commit hk]
  rw [hdeleted]
  constructor
  · intro hvis
    rw [hcreated hvis.2.1] at hvis
    exact hvis
  · intro hvis
    rw [← hcreated hvis.2.1] at hvis
    exact hvis

/-- **A settled token reads the same after any step.** -/
theorem visible_effect (h : Wf c) (hmarked : Marked c) (ha : c.Enabled a)
    {filter : TupleFilter} (hs : c.SettledFor filter s) (ht : filter.matches t = true) :
    t ∈ Version.visible (versions ((c.effect a).snapshotRows none)) s ↔
      t ∈ Version.visible (versions (c.snapshotRows none)) s := by
  by_cases hcommit : ∃ k, a = .commit k
  · obtain ⟨k, rfl⟩ := hcommit
    apply visible_commit h hmarked ha.1
    rcases Nat.lt_or_ge s k with hlt | hle
    · exact Or.inl hlt
    · exact Or.inr (hs k hle ha.1 t ht)
  · rw [snapshotRows_effect h ha fun k hk => hcommit ⟨k, hk⟩]

end Tenant

/-- The read would return the same tuples now, and its token is settled for it. -/
structure Stable (c : Tenant) (e : ReadRecord) : Prop where
  snapshot_le : e.snapshot ≤ c.seq.currentTxId
  settled : c.SettledFor e.filter e.snapshot
  tuples : ∀ t, t ∈ e.tuples ↔
    t ∈ Version.visible (versions (c.snapshotRows none)) e.snapshot ∧
      e.filter.matches t = true

/-- **Step lemma.** -/
theorem Stable.effect {c : Tenant} {a : Action} {e : ReadRecord} (h : Stable c e)
    (hwf : Wf c) (hmarked : Marked c) (ha : c.Enabled a) : Stable (c.effect a) e where
  snapshot_le := h.snapshot_le.trans (Tenant.currentTxId_effect hwf a)
  settled := by
    intro k hk hrun t ht
    rcases Tenant.running_effect hwf ha hrun with hrun | hnew
    · rw [Tenant.affects_effect hwf (Wf.used hrun) ha]
      exact h.settled k hk hrun t ht
    · have hle := h.snapshot_le
      omega
  tuples := by
    intro t
    rw [h.tuples]
    exact and_congr_left fun ht => (Tenant.visible_effect hwf hmarked ha h.settled ht).symm

/-- Every `SELECT` runs at a token that is settled for its filter. -/
def SettledReads (c : Tenant) : Action → Prop
  | .select filter snapshot => c.SettledFor filter snapshot
  | _ => True

/-- **Run lemma.**  Every read returned so far is stable. -/
theorem Run.stable {server : Server} {log : List ReadRecord} {c : Tenant}
    (h : Run server SettledReads log c) : ∀ e ∈ log, Stable c e := by
  induction h with
  | new => exact fun e he => absurd he List.not_mem_nil
  | @step log c a hrun hok ha ih =>
      intro e he
      rcases List.mem_append.mp he with he | he
      · exact (ih e he).effect hrun.wf hrun.marked ha
      · cases a with
        | select filter snapshot =>
            rw [Tenant.returned, List.mem_singleton] at he
            subst he
            exact {
              snapshot_le := hrun.wf.selecting _ ha
              settled := hok
              tuples := fun t => mem_readTuples }
        | _ => exact absurd he List.not_mem_nil

/-- **Snapshot immutability.**  If every `SELECT` at a token runs after the writes up
to that token that concern its filter have ended, two reads with one filter and one
token return the same tuples, whatever commits between them. -/
theorem settled_reads_agree (server : Server) {log : List ReadRecord} {c : Tenant}
    (h : Run server SettledReads log c) {e e' : ReadRecord} (he : e ∈ log) (he' : e' ∈ log)
    (hfilter : e.filter = e'.filter) (hsnapshot : e.snapshot = e'.snapshot) (t : Tuple) :
    t ∈ e.tuples ↔ t ∈ e'.tuples := by
  rw [(h.stable e he).tuples, (h.stable e' he').tuples, hfilter, hsnapshot]

/-! ## Runs with settled and unsettled reads -/

/-- Every `SELECT` runs when no write up to its token is running. -/
def AllSettledReads (c : Tenant) : Action → Prop
  | .select _ snapshot => c.Settled snapshot
  | _ => True

instance (c : Tenant) (a : Action) : Decidable (AllSettledReads c a) :=
  match a with
  | .select _ snapshot => inferInstanceAs (Decidable (∀ k ≤ snapshot, ¬ c.Running k))
  | .begin _ | .startDelete _ _ | .visit _ _ | .insert _ _ | .commit _ | .rollback _
  | .check _ _ => inferInstanceAs (Decidable True)

theorem AllSettledReads.settledReads {c : Tenant} {a : Action} (h : AllSettledReads c a) :
    SettledReads c a := by
  cases a with
  | select filter snapshot =>
      intro k hk hrun
      exact absurd hrun (h k hk)
  | _ => trivial

/-- `document:readme#viewer@user:alice`. -/
def aliceViews : TupleWrite :=
  ⟨⟨"document", "readme"⟩, "viewer", .direct "user" "alice"⟩

/-- A write touches a tuple; between two reads at its token a second write deletes
the tuple and commits. -/
def deleteBetweenReads : List Action :=
  [.begin ⟨[aliceViews], []⟩, .insert 1 aliceViews, .commit 1,
   .begin ⟨[], [{ objectId := some "readme" }]⟩, .check {} 1, .check {} 1, .select {} 1,
   .startDelete 2 { objectId := some "readme" }, .visit 2 0, .commit 2, .select {} 1]

/-- Both reads return the tuple. -/
theorem settled_reads_agree_delete :
    ∃ e e', Tenant.returnedAll heapOrder {} deleteBetweenReads = [e, e'] ∧
      e.tuples = [aliceViews.toTuple] ∧ ∀ t, t ∈ e.tuples ↔ t ∈ e'.tuples :=
  have hrun : Run heapOrder AllSettledReads _ _ :=
    Run.of_performs heapOrder deleteBetweenReads (by decide)
  ⟨⟨{}, 1, [aliceViews.toTuple]⟩, ⟨{}, 1, [aliceViews.toTuple]⟩, by decide, rfl, fun t =>
    settled_reads_agree heapOrder (hrun.mono fun _ _ => AllSettledReads.settledReads)
      (by decide) (by decide) rfl rfl t⟩

/-- A write draws its token; a read at that token comes before its insert and
another after its commit. -/
def readBeforeCommit : List Action :=
  [.begin ⟨[aliceViews], []⟩, .check {} 1, .select {} 1, .insert 1 aliceViews, .commit 1,
   .check {} 1, .select {} 1]

/-- **Two reads at one token differ.**  The first is at a token whose write is still
running. -/
theorem unsettled_reads_differ :
    ∃ log c, Run heapOrder (fun _ _ => True) log c ∧
      ∃ e ∈ log, ∃ e' ∈ log, e.filter = e'.filter ∧ e.snapshot = e'.snapshot ∧
        ∃ t, ¬ (t ∈ e.tuples ↔ t ∈ e'.tuples) :=
  ⟨_, _, Run.of_performs heapOrder readBeforeCommit (by decide),
    ⟨{}, 1, []⟩, by decide, ⟨{}, 1, [aliceViews.toTuple]⟩, by decide, rfl, rfl,
    aliceViews.toTuple, by decide⟩

end Kraalzibar.Postgres
