import Kraalzibar.Core.Check
import Kraalzibar.Core.Semantics

/-!
# The check engine computes the stratified model

The evaluator cuts an arrow target that is already on the current path.  Its
answer at a node is therefore the node's membership in the model in which
arrows into the visited set do not hold, `cutModel`.  Three facts make the cut
harmless.

* `mem_cutModel_cons` — cutting a node changes nothing about that node itself,
  because a least fixed point never needs a node to derive it.
* `mem_cutModel_iff_of_unreachable` — cutting changes nothing about a node from
  which no cut node can be reached.  In a stratified schema this covers every
  node inside an excluded operand, where a cut to `false` would be inverted.
* `cutModel_nil` — with nothing cut the cut model is the model.

`ruleBody_decides` is the step over the rule, `evaluateWithin_decides` the
induction over the remaining depth, and `check_computes_model` the result.
-/

namespace Kraalzibar

open Foundations Relation

section CutModel

variable (schema : Schema) (T : List Tuple) (u : SubjectRef) (M : Set VisitKey)

/-- The nodes that hold when arrows into `V` do not, `M` being read inside
excluded operands. -/
def cutModel (V : List VisitKey) : Set VisitKey :=
  ((permissionOperator schema T u {k | k ∈ V}).positive M).lfp

variable {schema T u M}

theorem cutModel_nil (hM : IsModel schema T u M) : cutModel schema T u M [] = M := by
  have hempty : {k : VisitKey | k ∈ ([] : List VisitKey)} = ∅ := by simp
  rw [cutModel, hempty]
  exact hM

theorem cutModel_fixed (V : List VisitKey) :
    cutStep schema T u {k | k ∈ V} (cutModel schema T u M V) M =
      cutModel schema T u M V :=
  ((permissionOperator schema T u {k | k ∈ V}).positive M).map_lfp

private theorem cutStep_anti {V V' X N : Set VisitKey} (h : V' ⊆ V) :
    cutStep schema T u V X N ⊆ cutStep schema T u V' X N := by
  intro k hparts
  obtain ⟨rule, hdecl, hholds⟩ := hparts
  exact ⟨rule, hdecl, hholds.mono (fun _ _ hk => ⟨hk.1, fun hV => hk.2 (h hV)⟩)
    (fun _ _ hk => hk)⟩

/-- Cutting `k` does not change whether `k` holds. -/
theorem mem_cutModel_cons {k : VisitKey} {V : List VisitKey} :
    k ∈ cutModel schema T u M (k :: V) ↔ k ∈ cutModel schema T u M V := by
  refine (mem_lfp_iff_of_agree_off ?_ ?_).symm
  · intro X
    exact cutStep_anti (fun v hv => List.mem_cons_of_mem k hv)
  · intro X hk
    have hsame : X \ {v | v ∈ V} = X \ {v | v ∈ k :: V} := by
      ext v
      constructor
      · intro hparts
        obtain ⟨hvX, hv⟩ := hparts
        refine ⟨hvX, fun hmem => ?_⟩
        rcases List.mem_cons.mp hmem with rfl | hmem
        · exact hk hvX
        · exact hv hmem
      · intro hparts
        obtain ⟨hvX, hv⟩ := hparts
        exact ⟨hvX, fun hmem => hv (List.mem_cons_of_mem k hmem)⟩
    intro n hn
    show n ∈ cutStep schema T u {v | v ∈ k :: V} X M
    rw [cutStep, ← hsame]
    exact hn

/-- Cutting nodes that `k` cannot reach does not change whether `k` holds. -/
theorem mem_cutModel_iff_of_unreachable (hM : IsModel schema T u M)
    {k : VisitKey} {V : List VisitKey}
    (hV : ∀ v ∈ V, ¬ ReflTransGen (Depends schema T) k v) :
    k ∈ cutModel schema T u M V ↔ k ∈ M := by
  constructor
  · intro hk
    rw [← cutModel_nil hM]
    have hle : cutModel schema T u M V ≤ cutModel schema T u M [] :=
      OrderHom.lfp.mono fun X => cutStep_anti (by simp)
    exact hle hk
  · intro hk
    -- The nodes that hold uncut, restricted to those out of reach of the cut.
    let S : Set VisitKey :=
      {n | (∀ v ∈ V, ¬ ReflTransGen (Depends schema T) n v) →
        n ∈ cutModel schema T u M V}
    have hpre : (permissionOperator schema T u ∅).positive M S ≤ S := by
      intro n hparts hn
      obtain ⟨rule, hdecl, hholds⟩ := hparts
      have hdeps : ∀ k', Reads T ⟨n.1, n.2.1⟩ rule k' → k' ∈ S →
          k' ∈ cutModel schema T u M V := fun k' hread hk' =>
        hk' (fun v hv hreach => hn v hv (.head ⟨rule, hdecl, hread⟩ hreach))
      rw [← cutModel_fixed]
      refine ⟨rule, hdecl, hholds.mono (fun k' hread hk' => ?_) hdeps⟩
      exact ⟨hdeps k' hread hk'.1, fun hcut =>
        hn k' hcut (.single ⟨rule, hdecl, hread⟩)⟩
    have hfix : ((permissionOperator schema T u ∅).positive M).lfp = M := hM
    rw [← hfix] at hk
    exact OrderHom.lfp_le _ hpre hk hV

theorem mem_cutModel_iff (hunique : schema.NamesUnique) {k : VisitKey}
    {rule : RewriteRule} (hdecl : schema.Declares k.1 k.2.2 rule) (V : List VisitKey) :
    k ∈ cutModel schema T u M V ↔
      RuleHolds schema T u (cutModel schema T u M V \ {v | v ∈ V})
        (cutModel schema T u M V) M ⟨k.1, k.2.1⟩ rule := by
  conv_lhs => rw [← cutModel_fixed]
  constructor
  · intro hparts
    obtain ⟨rule', hdecl', hholds⟩ := hparts
    rwa [hdecl.unique hunique hdecl']
  · exact fun hholds => ⟨rule, hdecl, hholds⟩

end CutModel

namespace CheckEngine

variable {engine : CheckEngine} {T : List Tuple} {subjectType subjectId : String}
variable {snapshot : Option SnapshotToken} {reader : TupleReader} {M : Set VisitKey}

/-- A context asking about the subject of the request at its snapshot. -/
structure ContextFor (subjectType subjectId : String)
    (snapshot : Option SnapshotToken) (ctx : CheckContext) : Prop where
  subjectType : ctx.subjectType = subjectType
  subjectId : ctx.subjectId = subjectId
  snapshot : ctx.snapshot = snapshot

/-- A tuple of a relation grants `u` when its subject is `u`, or is a userset
with the stored member `u`. -/
theorem evaluateTuple_decides (hreader : Serves reader snapshot T)
    {ctx : CheckContext} (hctx : ContextFor subjectType subjectId snapshot ctx)
    (t : Tuple) :
    Decides (Fallible.eval reader (evaluateTuple ctx t))
      (t.subject = SubjectRef.direct subjectType subjectId ∨
        ∃ q, t.subject.subjectRelation = some q ∧
          ⟨⟨t.subject.subjectType, t.subject.subjectId⟩, q,
            SubjectRef.direct subjectType subjectId⟩ ∈ T) := by
  obtain ⟨object, relation, st, si, sr⟩ := t
  cases sr with
  | none =>
      refine .ok ?_
      simp [SubjectRef.direct, hctx.subjectType, hctx.subjectId]
  | some q =>
      obtain ⟨tuples, hread, hne⟩ :=
        hreader.userset st si q ctx.subjectType ctx.subjectId
      simp only [evaluateTuple, Fallible.eval_bind, eval_readTuples, hctx.snapshot,
        hread, ok_bind, Fallible.eval_pure]
      refine .ok (hne.trans ?_)
      simp [SubjectRef.direct, hctx.subjectType, hctx.subjectId]

/-- A relation's loop decides the leaf. -/
theorem relationLoop_decides (hreader : Serves reader snapshot T)
    {ctx : CheckContext} (hctx : ContextFor subjectType subjectId snapshot ctx)
    (o : ObjectRef) (name : String) :
    Decides (Fallible.eval reader (relationLoop name o.objectType o.objectId ctx))
      (LeafHolds T (SubjectRef.direct subjectType subjectId) o name) := by
  obtain ⟨tuples, hread, hmem⟩ := hreader.relation o.objectType o.objectId name
  simp only [relationLoop, Fallible.eval_bind, eval_readTuples, hctx.snapshot, hread,
    ok_bind, Fallible.eval_anyM]
  refine (Decides.anyM fun t _ => evaluateTuple_decides hreader hctx t).congr ?_
  constructor
  · intro hparts
    obtain ⟨⟨object, relation, subject⟩, ht, hgrant⟩ := hparts
    obtain ⟨hstored, rfl, rfl⟩ := (hmem _).mp ht
    rcases hgrant with rfl | ⟨q, hq, hmember⟩
    · exact Or.inl hstored
    · refine Or.inr ⟨⟨subject.subjectType, subject.subjectId⟩, q, ?_, hmember⟩
      have hsubject :
          subject = SubjectRef.userset subject.subjectType subject.subjectId q := by
        rw [SubjectRef.userset, ← hq]
      exact hsubject ▸ hstored
  · intro hcase
    rcases hcase with hstored | ⟨X, q, huserset, hmember⟩
    · exact ⟨_, (hmem _).mpr ⟨hstored, rfl, rfl⟩, Or.inl rfl⟩
    · exact ⟨_, (hmem _).mpr ⟨huserset, rfl, rfl⟩, Or.inr ⟨q, rfl, hmember⟩⟩

/-- A relation's loop answers when its reads do. -/
theorem relationLoop_answers (hreader : Serves reader snapshot T)
    {ctx : CheckContext} (hctx : ctx.snapshot = snapshot)
    {name objectType objectId : String} :
    ∃ b, Fallible.eval reader (relationLoop name objectType objectId ctx) = .ok b := by
  obtain ⟨tuples, hread, -⟩ := hreader.relation objectType objectId name
  simp only [relationLoop, Fallible.eval_bind, eval_readTuples, hctx, hread, ok_bind,
    Fallible.eval_anyM]
  refine exists_ok_anyM fun t _ => ?_
  unfold evaluateTuple
  split
  · exact ⟨_, rfl⟩
  · next q _ =>
      obtain ⟨members, hmembers, -⟩ := hreader.userset t.subject.subjectType
        t.subject.subjectId q ctx.subjectType ctx.subjectId
      simp only [Fallible.eval_bind, eval_readTuples, hctx, hmembers, ok_bind]
      exact ⟨_, rfl⟩

/-- `next` answers correctly about any node every visited node leads to. -/
def NextDecides (engine : CheckEngine) (T : List Tuple)
    (subjectType subjectId : String) (snapshot : Option SnapshotToken)
    (reader : TupleReader) (M : Set VisitKey) (next : Evaluator) : Prop :=
  ∀ (k : VisitKey) (rule : RewriteRule) (ctx : CheckContext),
    engine.schema.Declares k.1 k.2.2 rule →
    ContextFor subjectType subjectId snapshot ctx →
    (∀ v ∈ ctx.visited, ReflTransGen (Depends engine.schema T) v k) →
    Decides (Fallible.eval reader (next rule k.1 k.2.1 ctx))
      (k ∈ cutModel engine.schema T (SubjectRef.direct subjectType subjectId) M
        ctx.visited)

/-- A name is looked up among the permissions of the type before its relations. -/
theorem evaluateThis_decides (hunique : engine.schema.NamesUnique)
    (hreader : Serves reader snapshot T) {next : Evaluator}
    (hnext : NextDecides engine T subjectType subjectId snapshot reader M next)
    {ctx : CheckContext} (hctx : ContextFor subjectType subjectId snapshot ctx)
    {o : ObjectRef} {name : String}
    (hpath : ∀ v ∈ ctx.visited, ReflTransGen (Depends engine.schema T) v (nodeOf o name)) :
    Decides
      (Fallible.eval reader (engine.evaluateThis next name o.objectType o.objectId ctx))
      (RuleHolds engine.schema T (SubjectRef.direct subjectType subjectId)
        (cutModel engine.schema T (SubjectRef.direct subjectType subjectId) M
          ctx.visited \ {v | v ∈ ctx.visited})
        (cutModel engine.schema T (SubjectRef.direct subjectType subjectId) M
          ctx.visited) M o (.this name)) := by
  simp only [RuleHolds]
  rcases evaluateThis_cases engine next name o.objectType o.objectId ctx
    with ⟨td, pd, htype, hperm, heq⟩ | ⟨td, rd, htype, hperm, -, heq⟩ | ⟨e, -, heq⟩
  · have hdecl : engine.schema.Declares o.objectType name pd.rule :=
      Schema.declares_of_get htype hperm
    rw [heq]
    refine (hnext (nodeOf o name) pd.rule { ctx with depth := ctx.depth + 1 } hdecl
      ⟨hctx.subjectType, hctx.subjectId, hctx.snapshot⟩ hpath).congr ?_
    constructor
    · intro h
      exact Or.inl ⟨⟨_, hdecl⟩, h⟩
    · intro hcase
      rcases hcase with ⟨-, h⟩ | ⟨hnot, -⟩
      · exact h
      · exact absurd ⟨_, hdecl⟩ hnot
  · have hnot : ¬ ∃ rule, engine.schema.Declares o.objectType name rule := by
      intro hparts
      obtain ⟨rule, hdecl⟩ := hparts
      obtain ⟨td', pd, htype', hperm', -⟩ := hdecl.get hunique
      obtain rfl : td = td' := Option.some.inj (htype.symm.trans htype')
      cases hperm.symm.trans hperm'
    rw [heq]
    refine (relationLoop_decides hreader hctx o name).congr ?_
    simp [hnot]
  · rw [heq]
    exact .error e

/-- A target that was visited before is cut, any other is visited and evaluated. -/
theorem evaluateTarget_decides {next : Evaluator}
    (hnext : NextDecides engine T subjectType subjectId snapshot reader M next)
    {ctx : CheckContext} (hctx : ContextFor subjectType subjectId snapshot ctx)
    {perm : String} {t : Tuple}
    (hpath : ∀ v ∈ ctx.visited, ReflTransGen (Depends engine.schema T) v
      (t.subject.subjectType, t.subject.subjectId, perm)) :
    Decides (Fallible.eval reader (engine.evaluateTarget next perm ctx t))
      ((t.subject.subjectType, t.subject.subjectId, perm) ∈
        cutModel engine.schema T (SubjectRef.direct subjectType subjectId) M
          ctx.visited \ {v | v ∈ ctx.visited}) := by
  rcases evaluateTarget_cases engine next perm ctx t with
    ⟨hvisited, heq⟩ | ⟨hfresh, td, pd, htype, hperm, heq⟩ | ⟨-, e, -, heq⟩
  · rw [heq]
    exact .ok (by simp [hvisited])
  · have hvisit : ∀ v ∈ (t.subject.subjectType, t.subject.subjectId, perm) ::
        ctx.visited, ReflTransGen (Depends engine.schema T) v
          (t.subject.subjectType, t.subject.subjectId, perm) := by
      intro v hv
      rcases List.mem_cons.mp hv with rfl | hv
      · exact .refl
      · exact hpath v hv
    rw [heq]
    refine (hnext (t.subject.subjectType, t.subject.subjectId, perm) pd.rule
      { ctx with depth := ctx.depth + 1, visited := _ }
      (Schema.declares_of_get htype hperm)
      ⟨hctx.subjectType, hctx.subjectId, hctx.snapshot⟩ hvisit).congr ?_
    rw [mem_cutModel_cons]
    exact ⟨fun h => ⟨h, hfresh⟩, fun h => h.1⟩
  · rw [heq]
    exact .error e

/-- An arrow holds when one of the targets that the relation stores does. -/
theorem evaluateArrow_decides (hreader : Serves reader snapshot T) {next : Evaluator}
    (hnext : NextDecides engine T subjectType subjectId snapshot reader M next)
    {ctx : CheckContext} (hctx : ContextFor subjectType subjectId snapshot ctx)
    {o : ObjectRef} {rel perm : String}
    (hpath : ∀ k, Reads T o (.arrow rel perm) k → ∀ v ∈ ctx.visited,
      ReflTransGen (Depends engine.schema T) v k) :
    Decides
      (Fallible.eval reader
        (engine.evaluateArrow next rel perm o.objectType o.objectId ctx))
      (RuleHolds engine.schema T (SubjectRef.direct subjectType subjectId)
        (cutModel engine.schema T (SubjectRef.direct subjectType subjectId) M
          ctx.visited \ {v | v ∈ ctx.visited})
        (cutModel engine.schema T (SubjectRef.direct subjectType subjectId) M
          ctx.visited) M o (.arrow rel perm)) := by
  obtain ⟨tuples, hread, hmem⟩ := hreader.relation o.objectType o.objectId rel
  simp only [evaluateArrow, Fallible.eval_bind, eval_readTuples, hctx.snapshot,
    hread, ok_bind, Fallible.eval_anyM]
  have htarget : ∀ t ∈ tuples,
      Decides (Fallible.eval reader (engine.evaluateTarget next perm ctx t))
        ((t.subject.subjectType, t.subject.subjectId, perm) ∈
          cutModel engine.schema T (SubjectRef.direct subjectType subjectId) M
            ctx.visited \ {v | v ∈ ctx.visited}) := by
    intro t ht
    obtain ⟨hstored, hobject, hrelation⟩ := (hmem t).mp ht
    exact evaluateTarget_decides hnext hctx
      (hpath _ (.arrow hstored hobject hrelation))
  refine (Decides.anyM htarget).congr ?_
  simp only [RuleHolds]
  constructor
  · intro hparts
    obtain ⟨t, ht, hk⟩ := hparts
    obtain ⟨hstored, hobject, hrelation⟩ := (hmem t).mp ht
    exact ⟨t, hstored, hobject, hrelation, hk⟩
  · intro hparts
    obtain ⟨t, hstored, hobject, hrelation, hk⟩ := hparts
    exact ⟨t, (hmem t).mpr ⟨hstored, hobject, hrelation⟩, hk⟩

/-- Nothing in an excluded operand leads to a cut node, so it is read uncut. -/
theorem ruleHolds_uncut {schema : Schema} {u : SubjectRef} (hM : IsModel schema T u M)
    {V : List VisitKey} {o : ObjectRef} {rule : RewriteRule}
    (hexcluded : ∀ k, Reads T o rule k → ∀ v ∈ V,
      ¬ ReflTransGen (Depends schema T) k v) :
    RuleHolds schema T u (cutModel schema T u M V \ {v | v ∈ V}) (cutModel schema T u M V)
        M o rule ↔
      RuleHolds schema T u M M M o rule := by
  have huncut : ∀ k, Reads T o rule k → (k ∈ cutModel schema T u M V ↔ k ∈ M) :=
    fun k hk => mem_cutModel_iff_of_unreachable hM (hexcluded k hk)
  have huncutArrow : ∀ k, Reads T o rule k →
      (k ∈ cutModel schema T u M V \ {v | v ∈ V} ↔ k ∈ M) := by
    intro k hk
    have hnotcut : k ∉ V := fun hmem => hexcluded k hk k hmem .refl
    rw [← huncut k hk]
    exact ⟨fun h => h.1, fun h => ⟨h, hnotcut⟩⟩
  exact RuleHolds.congr huncutArrow huncut (fun k _ => Iff.refl (k ∈ M))

/-- **One rule.**  Under a correct `next`, the body of a rule decides the rule
in the cut model, provided every visited node leads to what the rule reads and
nothing read inside an excluded operand leads back to a visited node. -/
theorem ruleBody_decides (hunique : engine.schema.NamesUnique)
    (hreader : Serves reader snapshot T)
    (hM : IsModel engine.schema T (SubjectRef.direct subjectType subjectId) M)
    {next : Evaluator}
    (hnext : NextDecides engine T subjectType subjectId snapshot reader M next)
    {ctx : CheckContext} (hctx : ContextFor subjectType subjectId snapshot ctx)
    {o : ObjectRef} {rule : RewriteRule}
    (hpath : ∀ k, Reads T o rule k → ∀ v ∈ ctx.visited,
      ReflTransGen (Depends engine.schema T) v k)
    (hexcluded : ∀ k, ReadsExcluded T o rule k → ∀ v ∈ ctx.visited,
      ¬ ReflTransGen (Depends engine.schema T) k v) :
    Decides
      (Fallible.eval reader (engine.ruleBody next o.objectType o.objectId ctx rule))
      (RuleHolds engine.schema T (SubjectRef.direct subjectType subjectId)
        (cutModel engine.schema T (SubjectRef.direct subjectType subjectId) M
          ctx.visited \ {v | v ∈ ctx.visited})
        (cutModel engine.schema T (SubjectRef.direct subjectType subjectId) M
          ctx.visited) M o rule) := by
  induction rule with
  | this name =>
      refine withinDepth_decides ?_
      exact evaluateThis_decides hunique hreader hnext hctx (hpath _ (.this name))
  | union children ih =>
      refine withinDepth_decides ?_
      rw [unionLoop_eq, Fallible.eval_anyM]
      simp only [RuleHolds, exists_prop]
      exact Decides.anyM fun c hc => ih c hc (fun k hk => hpath k (.union hc hk))
        (fun k hk => hexcluded k (.union hc hk))
  | intersection children ih =>
      refine withinDepth_decides ?_
      rw [intersectionLoop_eq, Fallible.eval_allM]
      simp only [RuleHolds]
      exact Decides.allM fun c hc => ih c hc (fun k hk => hpath k (.intersection hc hk))
        (fun k hk => hexcluded k (.intersection hc hk))
  | exclusion base minus ihBase ihMinus =>
      refine withinDepth_decides ?_
      have hbase := ihBase (fun k hk => hpath k (.base hk))
        (fun k hk => hexcluded k (.base hk))
      have hminus := ihMinus (fun k hk => hpath k (.excluded hk))
        (fun k hk => hexcluded k (.excluded hk.reads))
      have hminus' := hminus.congr
        (ruleHolds_uncut hM fun k hk => hexcluded k (.excluded hk))
      simp only [Fallible.eval_andNotM, RuleHolds]
      exact Decides.andNotM hbase hminus'
  | arrow rel perm =>
      refine withinDepth_decides ?_
      exact evaluateArrow_decides hreader hnext hctx hpath

/-- **Every depth.**  However many levels are left, an answer about a node that
every visited node leads to is its membership in the cut model. -/
theorem evaluateWithin_decides (hunique : engine.schema.NamesUnique)
    (hstrat : Stratified engine.schema T) (hreader : Serves reader snapshot T)
    (hM : IsModel engine.schema T (SubjectRef.direct subjectType subjectId) M)
    (remaining : Nat) :
    NextDecides engine T subjectType subjectId snapshot reader M
      (engine.evaluateWithin remaining) := by
  induction remaining with
  | zero =>
      intro k rule ctx _ _ _
      exact .error _
  | succ n ih =>
      intro k rule ctx hdecl hctx hvisited
      refine (ruleBody_decides hunique hreader hM ih hctx (o := ⟨k.1, k.2.1⟩)
        (fun k' hread v hv => (hvisited v hv).tail ⟨rule, hdecl, hread⟩) ?_).congr
          (mem_cutModel_iff hunique hdecl ctx.visited).symm
      intro k' hread v hv hback
      exact hstrat k k' ⟨rule, hdecl, hread⟩ (hback.trans (hvisited v hv))

/-- **The engine computes the permission semantics.**  A stratified schema over
tuples `T` has exactly one model, and whatever `check` answers, at any depth
limit, is the membership of the requested node in it. -/
theorem check_computes_model (schema : Schema) (hunique : schema.NamesUnique)
    (T : List Tuple) (hstrat : Stratified schema T)
    (subjectType subjectId : String) :
    ∃ M, IsModel schema T (SubjectRef.direct subjectType subjectId) M ∧
      (∀ M', IsModel schema T (SubjectRef.direct subjectType subjectId) M' → M' = M) ∧
      ∀ (config : EngineConfig) (reader : TupleReader) (request : CheckRequest),
        request.subjectType = subjectType → request.subjectId = subjectId →
        Serves reader request.snapshot T →
        ∀ result, Fallible.eval reader (check ⟨schema, config⟩ request) = .ok result →
          (result.allowed = true ↔
            (request.objectType, request.objectId, request.permission) ∈ M) := by
  obtain ⟨M, hM, hmodel⟩ := existsUnique_isModel hstrat
    (SubjectRef.direct subjectType subjectId)
  refine ⟨M, hM, hmodel, ?_⟩
  intro config reader request hst hsi hreader result hresult
  obtain ⟨td, pd, htype, hperm, heval⟩ := declared_of_check hresult
  have hnext : NextDecides ⟨schema, config⟩ T subjectType subjectId request.snapshot
      reader M (evaluateWithin ⟨schema, config⟩ (config.maxDepth + 1)) :=
    evaluateWithin_decides hunique hstrat hreader hM (config.maxDepth + 1)
  have hdecides := hnext (request.objectType, request.objectId, request.permission)
    pd.rule request.context (Schema.declares_of_get htype hperm) ⟨hst, hsi, rfl⟩
    (by simp [CheckRequest.context])
  have hnil : cutModel schema T (SubjectRef.direct subjectType subjectId) M
      request.context.visited = M := cutModel_nil hM
  rw [hnil] at hdecides
  exact hdecides result.allowed heval

end CheckEngine

/-- Folders with a parent cycle, a viewer inside it, and an exclusion above it. -/
def folderSchema : Schema where
  types :=
    [{ name := "user", relations := [], permissions := [] },
     { name := "folder"
       relations := [⟨"parent", [⟨"folder", none⟩]⟩, ⟨"viewer", [⟨"user", none⟩]⟩,
         ⟨"banned", [⟨"user", none⟩]⟩]
       permissions := [⟨"view", .union [.this "viewer", .arrow "parent" "view"]⟩,
         ⟨"open", .exclusion (.this "view") (.this "banned")⟩] }]

def folderTuples : List Tuple :=
  [⟨⟨"folder", "a"⟩, "parent", .direct "folder" "b"⟩,
   ⟨⟨"folder", "b"⟩, "parent", .direct "folder" "a"⟩,
   ⟨⟨"folder", "b"⟩, "viewer", .direct "user" "alice"⟩,
   ⟨⟨"folder", "b"⟩, "banned", .direct "user" "alice"⟩]

/-- The only excluded operand names a relation, which has no rule of its own. -/
private theorem folderSchema_stratified : Stratified folderSchema folderTuples := by
  intro a k hparts hback
  obtain ⟨rule, hdecl, hexcluded⟩ := hparts
  have hban : k.2.2 = "banned" := by
    obtain ⟨td, htd, -, pd, hpd, -, rfl⟩ := hdecl
    simp only [folderSchema, List.mem_cons, List.not_mem_nil, or_false] at htd
    rcases htd with rfl | rfl
    · simp at hpd
    · simp only [List.mem_cons, List.not_mem_nil, or_false] at hpd
      rcases hpd with rfl | rfl
      · cases hexcluded with
        | union hc h =>
            simp only [List.mem_cons, List.not_mem_nil, or_false] at hc
            rcases hc with rfl | rfl <;> cases h
      · cases hexcluded with
        | base h => cases h
        | excluded h =>
            cases h
            rfl
  have hnone : ∀ typeName rule, ¬ folderSchema.Declares typeName "banned" rule := by
    intro typeName rule hparts
    obtain ⟨td, htd, -, pd, hpd, hname, -⟩ := hparts
    simp only [folderSchema, List.mem_cons, List.not_mem_nil, or_false] at htd
    rcases htd with rfl | rfl
    · simp at hpd
    · simp only [List.mem_cons, List.not_mem_nil, or_false] at hpd
      rcases hpd with rfl | rfl <;> simp at hname
  rcases ReflTransGen.cases_head hback with rfl | ⟨next, ⟨rule', hdecl', -⟩, -⟩
  · exact hnone _ _ (hban ▸ hdecl)
  · exact hnone _ _ (hban ▸ hdecl')

/-- In the cyclic folders the model opens `a` to alice, through the cycle, and
not `b`, from which she is banned. -/
theorem check_computes_model_folders :
    ∃ M, IsModel folderSchema folderTuples (.direct "user" "alice") M ∧
      ("folder", "a", "open") ∈ M ∧ ("folder", "b", "open") ∉ M := by
  obtain ⟨M, hM, -, hcheck⟩ := CheckEngine.check_computes_model folderSchema
    ⟨by decide, by decide, by decide⟩ folderTuples folderSchema_stratified
    "user" "alice"
  have hanswer := fun objectId result => hcheck {} (listReader folderTuples)
    ⟨"folder", objectId, "open", "user", "alice", none⟩ rfl rfl
    (listReader_serves _ _) result
  refine ⟨M, hM, (hanswer "a" ⟨true⟩ (by decide +kernel)).mp rfl, fun hmem => ?_⟩
  have := (hanswer "b" ⟨false⟩ (by decide +kernel)).mpr hmem
  cases this

end Kraalzibar
