import Kraalzibar.Core.WellTyped
import Mathlib.Data.Finset.Card
import Mathlib.Tactic.Ring

/-!
# Termination and the depth limit

Both engines terminate on every schema, because the depth limit stops them one level
past it.  Cycles in the tuples do not use up the limit: an arrow enters a target only
once on a path, so what else can be deep is the chain of permissions that refer to
each other on one object.

* `Schema.Refers`, `ReachedByArrow` — the two ways one level leads to the next;
* `Position` — how deep an evaluation can be, given what it has visited;
* `cyclic_data_within_depth` — when the limit is out of reach.
-/

namespace Kraalzibar

open Foundations

/-- The rule of permission `p` of the type names permission `q`. -/
def Schema.Refers (schema : Schema) (typeName p q : String) : Prop :=
  ∃ td pd pd', schema.getType typeName = some td ∧ td.getPermission p = some pd ∧
    td.getPermission q = some pd' ∧ RewriteRule.Contains (.this q) pd.rule

/-- A chain of references between the permissions of one type has at most `h` of them. -/
def Schema.ChainsWithin (schema : Schema) (h : Nat) : Prop :=
  ∀ typeName chain, List.IsChain (schema.Refers typeName) chain → chain.length ≤ h + 1

/-- An arrow in the rule of node `k` leads to node `k'`. -/
def ArrowTo (schema : Schema) (T : List Tuple) (k k' : VisitKey) : Prop :=
  ∃ td pd rel perm, schema.getType k.1 = some td ∧ td.getPermission k.2.2 = some pd ∧
    RewriteRule.Contains (.arrow rel perm) pd.rule ∧
    ∃ t ∈ T, t.object = ⟨k.1, k.2.1⟩ ∧ t.relation = rel ∧
      k' = (t.subject.subjectType, t.subject.subjectId, perm)

/-- The nodes an evaluation that starts at `start` can come to. -/
inductive Reached (schema : Schema) (T : List Tuple) (start : VisitKey) : VisitKey → Prop
  | start : Reached schema T start start
  | refers {typeName id p q : String} (h : Reached schema T start (typeName, id, p))
      (hstep : schema.Refers typeName p q) : Reached schema T start (typeName, id, q)
  | arrow {k k' : VisitKey} (h : Reached schema T start k) (hstep : ArrowTo schema T k k') :
      Reached schema T start k'

/-- The nodes it can come to through an arrow. -/
def ReachedByArrow (schema : Schema) (T : List Tuple) (start k : VisitKey) : Prop :=
  ∃ from', Reached schema T start from' ∧ ArrowTo schema T from' k

variable {schema : Schema} {T : List Tuple} {start : VisitKey} {h depth : Nat}
variable {keys : Finset VisitKey} {visited : List VisitKey}

/-- Where an evaluation stands: it has entered the visited nodes through arrows, each
once, and has followed at most `h` references after each. -/
structure Position (schema : Schema) (T : List Tuple) (start : VisitKey) (h : Nat)
    (keys : Finset VisitKey) (k : VisitKey) (depth : Nat) (visited : List VisitKey) :
    Prop where
  reached : Reached schema T start k
  nodup : visited.Nodup
  entered : ∀ v ∈ visited, v ∈ keys
  depth_le : ∃ earlier, List.IsChain (schema.Refers k.1) (earlier ++ [k.2.2]) ∧
    depth ≤ visited.length * (h + 1) + earlier.length

namespace Position

theorem init : Position schema T start h keys start 0 [] where
  reached := .start
  nodup := .nil
  entered := nofun
  depth_le := ⟨[], .singleton _, Nat.zero_le _⟩

theorem refers {typeName id p q : String}
    (hpos : Position schema T start h keys (typeName, id, p) depth visited)
    (hstep : schema.Refers typeName p q) :
    Position schema T start h keys (typeName, id, q) (depth + 1) visited where
  reached := hpos.reached.refers hstep
  nodup := hpos.nodup
  entered := hpos.entered
  depth_le := by
    obtain ⟨earlier, hchain, hdepth⟩ := hpos.depth_le
    refine ⟨earlier ++ [p], ?_, ?_⟩
    · refine hchain.append (.singleton q) ?_
      intro x hx y hy
      rw [List.getLast?_append_cons, List.getLast?_singleton, Option.mem_some_iff] at hx
      rw [List.head?_cons, Option.mem_some_iff] at hy
      rw [← hx, ← hy]
      exact hstep
    · rw [List.length_append, List.length_singleton]
      omega

theorem arrow {k k' : VisitKey} (hpos : Position schema T start h keys k depth visited)
    (hchains : schema.ChainsWithin h) (hkeys : ∀ k, ReachedByArrow schema T start k → k ∈ keys)
    (hstep : ArrowTo schema T k k') (hfresh : k' ∉ visited) :
    Position schema T start h keys k' (depth + 1) (k' :: visited) where
  reached := hpos.reached.arrow hstep
  nodup := List.nodup_cons.mpr ⟨hfresh, hpos.nodup⟩
  entered := by
    intro v hv
    rcases List.mem_cons.mp hv with rfl | hv
    · exact hkeys v ⟨k, hpos.reached, hstep⟩
    · exact hpos.entered v hv
  depth_le := by
    obtain ⟨earlier, hchain, hdepth⟩ := hpos.depth_le
    have hlength := hchains k.1 _ hchain
    rw [List.length_append, List.length_singleton] at hlength
    refine ⟨[], .singleton _, ?_⟩
    rw [List.length_cons, List.length_nil, Nat.succ_mul]
    omega

/-- **The bound.** -/
theorem le_bound {k : VisitKey} (hpos : Position schema T start h keys k depth visited)
    (hchains : schema.ChainsWithin h) : depth ≤ keys.card + (keys.card + 1) * h := by
  obtain ⟨earlier, hchain, hdepth⟩ := hpos.depth_le
  have hlength := hchains k.1 _ hchain
  rw [List.length_append, List.length_singleton] at hlength
  have hvisited : visited.length ≤ keys.card := by
    rw [← List.toFinset_card_of_nodup hpos.nodup]
    exact Finset.card_le_card fun v hv => hpos.entered v (List.mem_toFinset.mp hv)
  calc depth ≤ visited.length * (h + 1) + earlier.length := hdepth
    _ ≤ keys.card * (h + 1) + h :=
        Nat.add_le_add (Nat.mul_le_mul_right _ hvisited) (Nat.le_of_succ_le_succ hlength)
    _ = keys.card + (keys.card + 1) * h := by ring

end Position

/-! ## The check engine -/

variable {E : CheckError → Prop} {reader : TupleReader} {snapshot : Option SnapshotToken}

namespace CheckEngine

variable {engine : CheckEngine}

/-- **The recursion of the source** over an evaluator. -/
def Recursion (engine : CheckEngine) (f : Evaluator) : Prop :=
  ∀ rule objectType objectId ctx,
    f rule objectType objectId ctx = engine.ruleBody f objectType objectId ctx rule

/-- The recursion ends: the engine is the only evaluator that satisfies it. -/
theorem recursion_iff {f : Evaluator} : engine.Recursion f ↔ f = engine.evaluateRule := by
  refine ⟨?_, fun h => h ▸ evaluateRule_eq⟩
  intro hf
  have hstop : ∀ rule objectType objectId ctx, ctx.depth > engine.config.maxDepth →
      f rule objectType objectId ctx = engine.evaluateRule rule objectType objectId ctx := by
    intro rule objectType objectId ctx hgt
    rw [hf, evaluateRule_eq]
    cases rule <;> simp only [ruleBody, withinDepth, hgt, if_true]
  have hall : ∀ n rule objectType objectId ctx,
      ctx.depth + n = engine.config.maxDepth + 1 →
        f rule objectType objectId ctx = engine.evaluateRule rule objectType objectId ctx := by
    intro n
    induction n with
    | zero =>
        intro rule objectType objectId ctx hdepth
        exact hstop rule objectType objectId ctx (by omega)
    | succ n ih =>
        intro rule objectType objectId ctx hdepth
        rw [hf, evaluateRule_eq]
        exact ruleBody_congr (fun rule objectType objectId ctx' hctx' =>
          ih rule objectType objectId ctx' (by omega)) rule
  funext rule objectType objectId ctx
  by_cases hdepth : ctx.depth ≤ engine.config.maxDepth
  · exact hall (engine.config.maxDepth + 1 - ctx.depth) _ _ _ _ (by omega)
  · exact hstop rule objectType objectId ctx (by omega)

/-- A name fails where the rule of its permission does, or when it is unknown. -/
theorem evaluateThis_failsOnly (hE : ∀ e, ¬ CheckError.IsDepth e → E e)
    (hreader : Serves reader snapshot T) {next : Evaluator} {objectType objectId : String}
    {ctx : CheckContext} (hctx : ctx.snapshot = snapshot) {name : String}
    (hperm : ∀ td pd, engine.schema.getType objectType = some td →
      td.getPermission name = some pd →
      FailsOnly E (Fallible.eval reader
        (next pd.rule objectType objectId { ctx with depth := ctx.depth + 1 }))) :
    FailsOnly E (Fallible.eval reader
      (engine.evaluateThis next name objectType objectId ctx)) := by
  rcases evaluateThis_cases engine next name objectType objectId ctx with
    ⟨td, pd, htype, hget, heq⟩ | ⟨td, rd, -, -, -, heq⟩ | ⟨e, he, heq⟩
  · rw [heq]
    exact hperm td pd htype hget
  · rw [heq]
    exact relationLoop_failsOnly hreader hctx name objectType objectId
  · rw [heq]
    exact .error (hE e he)

/-- A target that is not visited fails where its permission's rule does, or when a name
is unknown. -/
theorem evaluateTarget_failsOnly (hE : ∀ e, ¬ CheckError.IsDepth e → E e)
    {next : Evaluator} {ctx : CheckContext} {perm : String} {t : Tuple}
    (hnext : ∀ td pd, (t.subject.subjectType, t.subject.subjectId, perm) ∉ ctx.visited →
      engine.schema.getType t.subject.subjectType = some td →
      td.getPermission perm = some pd →
      FailsOnly E (Fallible.eval reader
        (next pd.rule t.subject.subjectType t.subject.subjectId
          { ctx with
            depth := ctx.depth + 1
            visited :=
              (t.subject.subjectType, t.subject.subjectId, perm) :: ctx.visited }))) :
    FailsOnly E (Fallible.eval reader (engine.evaluateTarget next perm ctx t)) := by
  rcases evaluateTarget_cases engine next perm ctx t with
    ⟨-, heq⟩ | ⟨hfresh, td, pd, htype, hget, heq⟩ | ⟨-, e, he, heq⟩
  · rw [heq]
    exact .ok false
  · rw [heq]
    exact hnext td pd hfresh htype hget
  · rw [heq]
    exact .error (hE e he)

/-- A check fails where the evaluation of its permission does, or at an unknown name. -/
theorem check_failsOnly (hE : ∀ e, ¬ CheckError.IsDepth e → E e) {request : CheckRequest}
    (heval : ∀ td pd, engine.schema.getType request.objectType = some td →
      td.getPermission request.permission = some pd →
      FailsOnly E (Fallible.eval reader (engine.evaluateWithin (engine.config.maxDepth + 1)
        pd.rule request.objectType request.objectId request.context))) :
    FailsOnly E (Fallible.eval reader (engine.check request)) := by
  rcases check_cases engine request with ⟨td, pd, htype, hget, heq⟩ | ⟨e, he, heq⟩
  · rw [heq, Fallible.eval_bind]
    exact (heval td pd htype hget).bind fun allowed _ => .ok _
  · rw [heq]
    exact .error (hE e he)

/-- The limit is noticed one level past it. -/
theorem evaluateWithin_exceeds (hreader : Serves reader snapshot T) {n : Nat}
    (rule : RewriteRule) (objectType objectId : String) {ctx : CheckContext}
    (hctx : ctx.snapshot = snapshot) (hn : ctx.depth + n = engine.config.maxDepth + 1) :
    FailsOnly (fun e => ∀ d, e = .maxDepthExceeded d → d = engine.config.maxDepth + 1)
      (Fallible.eval reader (engine.evaluateWithin n rule objectType objectId ctx)) := by
  induction n generalizing rule objectType objectId ctx with
  | zero =>
      refine .error ?_
      intro d hd
      cases hd
      exact hn
  | succ n ih =>
      have hother : ∀ e : CheckError, ¬ e.IsDepth →
          ∀ d, e = .maxDepthExceeded d → d = engine.config.maxDepth + 1 :=
        fun e he d hd => absurd ⟨d, hd⟩ he
      refine ruleBody_failsOnly hreader hctx (by omega) ?_ ?_
      · intro name _
        refine evaluateThis_failsOnly hother hreader hctx fun td pd _ _ => ?_
        exact ih _ _ _ hctx (by simp only; omega)
      · intro rel perm t _ _ _ _
        refine evaluateTarget_failsOnly hother fun td pd _ _ _ => ?_
        exact ih _ _ _ hctx (by simp only; omega)

/-- From a position, the limit is out of reach when the bound is below it. -/
theorem evaluateWithin_position (hreader : Serves reader snapshot T)
    (hchains : engine.schema.ChainsWithin h)
    (hkeys : ∀ k, ReachedByArrow engine.schema T start k → k ∈ keys)
    (hlimit : keys.card + (keys.card + 1) * h ≤ engine.config.maxDepth) {n : Nat}
    {typeName id perm : String} {td : TypeDefinition} {pd : PermissionDef}
    (htype : engine.schema.getType typeName = some td) (hget : td.getPermission perm = some pd)
    {ctx : CheckContext} (hctx : ctx.snapshot = snapshot)
    (hpos : Position engine.schema T start h keys (typeName, id, perm) ctx.depth ctx.visited)
    (hn : ctx.depth + n = engine.config.maxDepth + 1) :
    FailsOnly (fun e => ¬ CheckError.IsDepth e)
      (Fallible.eval reader (engine.evaluateWithin n pd.rule typeName id ctx)) := by
  induction n generalizing typeName id perm td pd ctx with
  | zero =>
      have hle := hpos.le_bound hchains
      omega
  | succ n ih =>
      refine ruleBody_failsOnly hreader hctx (by omega) ?_ ?_
      · intro name hcontains
        refine evaluateThis_failsOnly (fun _ he => he) hreader hctx fun td' pd' htype' hget' => ?_
        obtain rfl : td = td' := Option.some.inj (htype.symm.trans htype')
        refine ih htype hget' hctx (hpos.refers ?_) (by simp only; omega)
        exact ⟨td, pd, pd', htype, hget, hget', hcontains⟩
      · intro rel perm' t hcontains hstored hobject hrelation
        refine evaluateTarget_failsOnly (fun _ he => he) fun td' pd' hfresh htype' hget' => ?_
        refine ih htype' hget' hctx (hpos.arrow hchains hkeys ?_ hfresh) (by simp only; omega)
        exact ⟨td, pd, rel, perm', htype, hget, hcontains, t, hstored, hobject, hrelation, rfl⟩

end CheckEngine

/-! ## The expand engine -/

namespace ExpandEngine

variable {engine : ExpandEngine}

/-- **The recursion of the source** over an expander. -/
def Recursion (engine : ExpandEngine) (f : Expander) : Prop :=
  ∀ rule objectType objectId ctx,
    f rule objectType objectId ctx = engine.ruleBody f objectType objectId ctx rule

/-- The recursion ends: the engine is the only expander that satisfies it. -/
theorem recursion_iff {f : Expander} : engine.Recursion f ↔ f = engine.expandRule := by
  refine ⟨?_, fun h => h ▸ expandRule_eq⟩
  intro hf
  have hstop : ∀ rule objectType objectId ctx, ctx.depth > engine.config.maxDepth →
      f rule objectType objectId ctx = engine.expandRule rule objectType objectId ctx := by
    intro rule objectType objectId ctx hgt
    rw [hf, expandRule_eq]
    cases rule <;> simp only [ruleBody, withinDepth, hgt, if_true]
  have hall : ∀ n rule objectType objectId ctx,
      ctx.depth + n = engine.config.maxDepth + 1 →
        f rule objectType objectId ctx = engine.expandRule rule objectType objectId ctx := by
    intro n
    induction n with
    | zero =>
        intro rule objectType objectId ctx hdepth
        exact hstop rule objectType objectId ctx (by omega)
    | succ n ih =>
        intro rule objectType objectId ctx hdepth
        rw [hf, expandRule_eq]
        exact ruleBody_congr (fun rule objectType objectId ctx' hctx' =>
          ih rule objectType objectId ctx' (by omega)) rule
  funext rule objectType objectId ctx
  by_cases hdepth : ctx.depth ≤ engine.config.maxDepth
  · exact hall (engine.config.maxDepth + 1 - ctx.depth) _ _ _ _ (by omega)
  · exact hstop rule objectType objectId ctx (by omega)

/-- A name fails where the rule of its permission does, or when it is unknown. -/
theorem expandThis_failsOnly (hE : ∀ e, ¬ CheckError.IsDepth e → E e)
    (hreader : Serves reader snapshot T) {next : Expander} {objectType objectId : String}
    {ctx : ExpandContext} (hctx : ctx.snapshot = snapshot) {name : String}
    (hperm : ∀ td pd, engine.schema.getType objectType = some td →
      td.getPermission name = some pd →
      FailsOnly E (Fallible.eval reader
        (next pd.rule objectType objectId { ctx with depth := ctx.depth + 1 }))) :
    FailsOnly E (Fallible.eval reader
      (engine.expandThis next name objectType objectId ctx)) := by
  rcases expandThis_cases engine next name objectType objectId ctx with
    ⟨td, pd, htype, hget, heq⟩ | ⟨td, rd, -, -, -, heq⟩ | ⟨e, he, heq⟩
  · rw [heq]
    exact hperm td pd htype hget
  · rw [heq]
    exact expandRelation_failsOnly hreader hctx name objectType objectId
  · rw [heq]
    exact .error (hE e he)

/-- A target that is not visited fails where its permission's rule does, or when a name
is unknown. -/
theorem expandTarget_failsOnly (hE : ∀ e, ¬ CheckError.IsDepth e → E e)
    {next : Expander} {ctx : ExpandContext} {perm : String} {t : Tuple}
    (hnext : ∀ td pd, (t.subject.subjectType, t.subject.subjectId, perm) ∉ ctx.visited →
      engine.schema.getType t.subject.subjectType = some td →
      td.getPermission perm = some pd →
      FailsOnly E (Fallible.eval reader
        (next pd.rule t.subject.subjectType t.subject.subjectId
          { ctx with
            depth := ctx.depth + 1
            visited :=
              (t.subject.subjectType, t.subject.subjectId, perm) :: ctx.visited }))) :
    FailsOnly E (Fallible.eval reader (engine.expandTarget next perm ctx t)) := by
  rcases expandTarget_cases engine next perm ctx t with
    ⟨-, heq⟩ | ⟨hfresh, td, pd, htype, hget, heq⟩ | ⟨-, e, he, heq⟩
  · rw [heq]
    exact .ok none
  · rw [heq, Fallible.eval_bind]
    exact (hnext td pd hfresh htype hget).bind fun tree _ => .ok _
  · rw [heq]
    exact .error (hE e he)

/-- An expansion fails where that of its permission does, or at an unknown name. -/
theorem expand_failsOnly (hE : ∀ e, ¬ CheckError.IsDepth e → E e) {request : ExpandRequest}
    (hexpand : ∀ td pd, engine.schema.getType request.objectType = some td →
      td.getPermission request.permission = some pd →
      FailsOnly E (Fallible.eval reader (engine.expandWithin (engine.config.maxDepth + 1)
        pd.rule request.objectType request.objectId
          { snapshot := request.snapshot, depth := 0, visited := [] }))) :
    FailsOnly E (Fallible.eval reader (engine.expand request)) := by
  rcases expand_cases engine request with ⟨td, pd, htype, hget, heq⟩ | ⟨e, he, heq⟩
  · rw [heq]
    exact hexpand td pd htype hget
  · rw [heq]
    exact .error (hE e he)

/-- The limit is noticed one level past it. -/
theorem expandWithin_exceeds (hreader : Serves reader snapshot T) {n : Nat}
    (rule : RewriteRule) (objectType objectId : String) {ctx : ExpandContext}
    (hctx : ctx.snapshot = snapshot) (hn : ctx.depth + n = engine.config.maxDepth + 1) :
    FailsOnly (fun e => ∀ d, e = .maxDepthExceeded d → d = engine.config.maxDepth + 1)
      (Fallible.eval reader (engine.expandWithin n rule objectType objectId ctx)) := by
  induction n generalizing rule objectType objectId ctx with
  | zero =>
      refine .error ?_
      intro d hd
      cases hd
      exact hn
  | succ n ih =>
      have hother : ∀ e : CheckError, ¬ e.IsDepth →
          ∀ d, e = .maxDepthExceeded d → d = engine.config.maxDepth + 1 :=
        fun e he d hd => absurd ⟨d, hd⟩ he
      refine ruleBody_failsOnly hreader hctx (by omega) ?_ ?_
      · intro name _
        refine expandThis_failsOnly hother hreader hctx fun td pd _ _ => ?_
        exact ih _ _ _ hctx (by simp only; omega)
      · intro rel perm t _ _ _ _
        refine expandTarget_failsOnly hother fun td pd _ _ _ => ?_
        exact ih _ _ _ hctx (by simp only; omega)

/-- From a position, the limit is out of reach when the bound is below it. -/
theorem expandWithin_position (hreader : Serves reader snapshot T)
    (hchains : engine.schema.ChainsWithin h)
    (hkeys : ∀ k, ReachedByArrow engine.schema T start k → k ∈ keys)
    (hlimit : keys.card + (keys.card + 1) * h ≤ engine.config.maxDepth) {n : Nat}
    {typeName id perm : String} {td : TypeDefinition} {pd : PermissionDef}
    (htype : engine.schema.getType typeName = some td) (hget : td.getPermission perm = some pd)
    {ctx : ExpandContext} (hctx : ctx.snapshot = snapshot)
    (hpos : Position engine.schema T start h keys (typeName, id, perm) ctx.depth ctx.visited)
    (hn : ctx.depth + n = engine.config.maxDepth + 1) :
    FailsOnly (fun e => ¬ CheckError.IsDepth e)
      (Fallible.eval reader (engine.expandWithin n pd.rule typeName id ctx)) := by
  induction n generalizing typeName id perm td pd ctx with
  | zero =>
      have hle := hpos.le_bound hchains
      omega
  | succ n ih =>
      refine ruleBody_failsOnly hreader hctx (by omega) ?_ ?_
      · intro name hcontains
        refine expandThis_failsOnly (fun _ he => he) hreader hctx fun td' pd' htype' hget' => ?_
        obtain rfl : td = td' := Option.some.inj (htype.symm.trans htype')
        refine ih htype hget' hctx (hpos.refers ?_) (by simp only; omega)
        exact ⟨td, pd, pd', htype, hget, hget', hcontains⟩
      · intro rel perm' t hcontains hstored hobject hrelation
        refine expandTarget_failsOnly (fun _ he => he) fun td' pd' hfresh htype' hget' => ?_
        refine ih htype' hget' hctx (hpos.arrow hchains hkeys ?_ hfresh) (by simp only; omega)
        exact ⟨td, pd, rel, perm', htype, hget, hcontains, t, hstored, hobject, hrelation, rfl⟩

end ExpandEngine

/-- **Cyclic data alone never exhausts the depth.**  Both engines terminate, and report
the limit one level past it.  With `N` nodes to enter through arrows, and at most `h`
references in a chain on one object, `N + (N + 1) * h` levels are enough. -/
theorem cyclic_data_within_depth (schema : Schema) (config : EngineConfig) (T : List Tuple)
    (reader : TupleReader) (snapshot : Option SnapshotToken)
    (hreader : Serves reader snapshot T) (objectType objectId permission : String) :
    ((∀ f, CheckEngine.Recursion ⟨schema, config⟩ f ↔
        f = CheckEngine.evaluateRule ⟨schema, config⟩) ∧
      ∀ f, ExpandEngine.Recursion ⟨schema, config⟩ f ↔
        f = ExpandEngine.expandRule ⟨schema, config⟩) ∧
    (∀ d, (∃ subjectType subjectId, Fallible.eval reader
          (CheckEngine.check ⟨schema, config⟩
            ⟨objectType, objectId, permission, subjectType, subjectId, snapshot⟩) =
              .error (.maxDepthExceeded d)) ∨
        Fallible.eval reader (ExpandEngine.expand ⟨schema, config⟩
          ⟨objectType, objectId, permission, snapshot⟩) = .error (.maxDepthExceeded d) →
      d = config.maxDepth + 1) ∧
    ∀ (h : Nat) (keys : Finset VisitKey), schema.ChainsWithin h →
      (∀ k, k ∈ keys ↔ ReachedByArrow schema T (objectType, objectId, permission) k) →
      keys.card + (keys.card + 1) * h ≤ config.maxDepth → ∀ d,
        (∀ subjectType subjectId, Fallible.eval reader
          (CheckEngine.check ⟨schema, config⟩
            ⟨objectType, objectId, permission, subjectType, subjectId, snapshot⟩) ≠
              .error (.maxDepthExceeded d)) ∧
        Fallible.eval reader (ExpandEngine.expand ⟨schema, config⟩
          ⟨objectType, objectId, permission, snapshot⟩) ≠ .error (.maxDepthExceeded d) := by
  refine ⟨⟨fun _ => CheckEngine.recursion_iff, fun _ => ExpandEngine.recursion_iff⟩, ?_, ?_⟩
  · intro d herror
    have hother : ∀ e : CheckError, ¬ e.IsDepth →
        ∀ d, e = .maxDepthExceeded d → d = config.maxDepth + 1 :=
      fun e he d hd => absurd ⟨d, hd⟩ he
    rcases herror with ⟨subjectType, subjectId, herror⟩ | herror
    · refine CheckEngine.check_failsOnly hother ?_ _ herror d rfl
      intro td pd _ _
      exact CheckEngine.evaluateWithin_exceeds hreader pd.rule _ _ rfl (Nat.zero_add _)
    · refine ExpandEngine.expand_failsOnly hother ?_ _ herror d rfl
      intro td pd _ _
      exact ExpandEngine.expandWithin_exceeds hreader pd.rule _ _ rfl (Nat.zero_add _)
  · intro h keys hchains hkeys hlimit d
    have hkeys : ∀ k, ReachedByArrow schema T (objectType, objectId, permission) k →
        k ∈ keys := fun k => (hkeys k).mpr
    constructor
    · intro subjectType subjectId herror
      refine CheckEngine.check_failsOnly (fun _ he => he) ?_ _ herror ⟨d, rfl⟩
      intro td pd htype hget
      exact CheckEngine.evaluateWithin_position hreader hchains hkeys hlimit htype hget rfl
        .init (Nat.zero_add _)
    · intro herror
      refine ExpandEngine.expand_failsOnly (fun _ he => he) ?_ _ herror ⟨d, rfl⟩
      intro td pd htype hget
      exact ExpandEngine.expandWithin_position hreader hchains hkeys hlimit htype hget rfl
        .init (Nat.zero_add _)

/-- The rules of the folders' permissions. -/
private theorem folder_rule {typeName p : String} {td : TypeDefinition} {pd : PermissionDef}
    (htype : folderSchema.getType typeName = some td) (hget : td.getPermission p = some pd) :
    p = "view" ∧ pd.rule = .union [.this "viewer", .arrow "parent" "view"] ∨
    p = "open" ∧ pd.rule = .exclusion (.this "view") (.this "banned") := by
  have hname : pd.name = p := by simpa using List.find?_some hget
  have htd := List.mem_of_find?_eq_some htype
  have hpd := List.mem_of_find?_eq_some hget
  simp only [folderSchema, List.mem_cons, List.not_mem_nil, or_false] at htd
  rcases htd with rfl | rfl
  · cases hpd
  · simp only [List.mem_cons, List.not_mem_nil, or_false] at hpd
    rcases hpd with rfl | rfl
    · exact Or.inl ⟨hname.symm, rfl⟩
    · exact Or.inr ⟨hname.symm, rfl⟩

/-- Only `open` refers to a permission. -/
private theorem folder_chains : folderSchema.ChainsWithin 1 := by
  have hrefers : ∀ {typeName p q}, folderSchema.Refers typeName p q →
      p = "open" ∧ (q = "view" ∨ q = "banned") := by
    intro typeName p q hparts
    obtain ⟨td, pd, pd', htype, hget, hget', hcontains⟩ := hparts
    rcases folder_rule htype hget with ⟨-, hrule⟩ | ⟨rfl, hrule⟩
    · rw [hrule] at hcontains
      cases hcontains with
      | union hc hin =>
          simp only [List.mem_cons, List.not_mem_nil, or_false] at hc
          rcases hc with rfl | rfl
          · cases hin
            rcases folder_rule htype hget' with ⟨heq, -⟩ | ⟨heq, -⟩ <;> simp at heq
          · cases hin
    · rw [hrule] at hcontains
      cases hcontains with
      | base hin =>
          cases hin
          exact ⟨rfl, Or.inl rfl⟩
      | excluded hin =>
          cases hin
          exact ⟨rfl, Or.inr rfl⟩
  intro typeName chain hchain
  match chain, hchain with
  | [], _ => exact Nat.zero_le _
  | [_], _ => exact Nat.le_succ _
  | [_, _], _ => exact le_rfl
  | p :: q :: r :: rest, hchain =>
      rw [List.isChain_cons_cons, List.isChain_cons_cons] at hchain
      have hopen := (hrefers hchain.2.1).1
      rcases (hrefers hchain.1).2 with heq | heq <;> simp [heq] at hopen

/-- Each folder of the cycle is entered from the other. -/
private theorem folder_reached (k : VisitKey) :
    k ∈ ({("folder", "a", "view"), ("folder", "b", "view")} : Finset VisitKey) ↔
      ReachedByArrow folderSchema folderTuples ("folder", "a", "view") k := by
  have hparent : ∀ id t, t ∈ folderTuples → t.object = ⟨"folder", id⟩ →
      t.relation = "parent" → ArrowTo folderSchema folderTuples ("folder", id, "view")
        (t.subject.subjectType, t.subject.subjectId, "view") := by
    intro id t ht hobject hrelation
    exact ⟨_, _, "parent", "view", rfl, rfl, .union (List.mem_cons_of_mem _ (.head _)) .self,
      t, ht, hobject, hrelation, rfl⟩
  have htoB := hparent "a" _ (.head _) rfl rfl
  have htoA := hparent "b" _ (List.mem_cons_of_mem _ (.head _)) rfl rfl
  rw [Finset.mem_insert, Finset.mem_singleton]
  constructor
  · intro hk
    rcases hk with rfl | rfl
    · exact ⟨_, .arrow .start htoB, htoA⟩
    · exact ⟨_, .start, htoB⟩
  · intro hparts
    obtain ⟨from', -, td, pd, rel, perm, htype, hget, hcontains, t, ht, -, hrelation, rfl⟩ :=
      hparts
    have harrow : rel = "parent" ∧ perm = "view" := by
      rcases folder_rule htype hget with ⟨-, hrule⟩ | ⟨-, hrule⟩
      · rw [hrule] at hcontains
        cases hcontains with
        | union hc hin =>
            simp only [List.mem_cons, List.not_mem_nil, or_false] at hc
            rcases hc with rfl | rfl <;> cases hin
            exact ⟨rfl, rfl⟩
      · rw [hrule] at hcontains
        cases hcontains with
        | base hin => cases hin
        | excluded hin => cases hin
    obtain ⟨rfl, rfl⟩ := harrow
    simp only [folderTuples, List.mem_cons, List.not_mem_nil, or_false] at ht
    rcases ht with rfl | rfl | rfl | rfl
    · exact Or.inr rfl
    · exact Or.inl rfl
    · simp at hrelation
    · simp at hrelation

/-- Two folders that are each other's parent, and one reference in a chain, need five
levels. -/
theorem cyclic_data_within_depth_folder :
    Fallible.eval (listReader folderTuples) (CheckEngine.check ⟨folderSchema, ⟨5⟩⟩
      ⟨"folder", "a", "view", "user", "bob", none⟩) ≠ .error (.maxDepthExceeded 6) ∧
    Fallible.eval (listReader folderTuples) (ExpandEngine.expand ⟨folderSchema, ⟨5⟩⟩
      ⟨"folder", "a", "view", none⟩) ≠ .error (.maxDepthExceeded 6) :=
  have hwithin := (cyclic_data_within_depth folderSchema ⟨5⟩ folderTuples
    (listReader folderTuples) none (listReader_serves _ _) "folder" "a" "view").2.2 1 _
      folder_chains folder_reached (by decide) 6
  ⟨hwithin.1 "user" "bob", hwithin.2⟩

end Kraalzibar
