import Kraalzibar.Foundations.PegRules

/-!
# What a match derives

Behind every match there is a derivation: with the order of choices and the greed of
repetitions left out, an expression is a context-free rule over the tokens of the text,
and the pairs of a match are those of the rules that derive its tokens.

* `Expr.Matches` — the texts of an expression inside an atomic rule;
* `Expr.Derives` — the tokens of an expression outside of atomic rules, which are its
  literals and its atomic rules, and the pairs it records;
* `Spaced` — texts of tokens, with what is passed over around them;
* `derives_of_run` — a match takes a text of tokens that the expression derives, and
  records their pairs.
-/

namespace Foundations

namespace Peg

variable {R : Type} {skip : Input → Input} {inAtomic : Bool} {e a b : Expr R}
  {input input' : Input} {pairs : List (Pair R)}

/-! ## What a match went through -/

theorem run_str_of_some {literal : String}
    (h : (.str literal : Expr R).run skip inAtomic input = some (pairs, input')) :
    pairs = [] ∧ input.rest = literal.toList ++ input'.rest := by
  rw [run_str] at h
  split at h
  · rename_i hprefix
    obtain ⟨rest, hrest⟩ := List.isPrefixOf_iff_prefix.mp hprefix
    obtain ⟨rfl, rfl⟩ := Prod.mk.inj (Option.some.inj h)
    refine ⟨rfl, ?_⟩
    rw [Input.drop, ← hrest, List.drop_left]
  · cases h

theorem run_satisfy_of_some {p : Char → Bool}
    (h : (.satisfy p : Expr R).run skip inAtomic input = some (pairs, input')) :
    pairs = [] ∧ ∃ c, p c = true ∧ input.rest = c :: input'.rest := by
  obtain ⟨position, rest⟩ := input
  cases rest with
  | nil => cases h
  | cons c rest =>
      by_cases hc : p c = true
      · have hrun : (.satisfy p : Expr R).run skip inAtomic ⟨position, c :: rest⟩ =
            some ([], ⟨position + 1, rest⟩) := if_pos hc
        rw [hrun] at h
        obtain ⟨rfl, rfl⟩ := Prod.mk.inj (Option.some.inj h)
        exact ⟨rfl, c, hc, rfl⟩
      · have hrun : (.satisfy p : Expr R).run skip inAtomic ⟨position, c :: rest⟩ = none :=
          if_neg hc
        rw [hrun] at h
        cases h

theorem run_startOfInput_of_some
    (h : (.startOfInput : Expr R).run skip inAtomic input = some (pairs, input')) :
    pairs = [] ∧ input = input' := by
  rw [Expr.run] at h
  split at h
  · obtain ⟨rfl, rfl⟩ := Prod.mk.inj (Option.some.inj h)
    exact ⟨rfl, rfl⟩
  · cases h

theorem run_endOfInput_of_some
    (h : (.endOfInput : Expr R).run skip inAtomic input = some (pairs, input')) :
    pairs = [] ∧ input = input' ∧ input.rest = [] := by
  rw [Expr.run] at h
  split at h
  · rename_i hempty
    obtain ⟨rfl, rfl⟩ := Prod.mk.inj (Option.some.inj h)
    exact ⟨rfl, rfl, List.isEmpty_iff.mp hempty⟩
  · cases h

theorem run_seq_of_some
    (h : (Expr.seq a b).run skip inAtomic input = some (pairs, input')) :
    ∃ first mid second, a.run skip inAtomic input = some (first, mid) ∧
      b.run skip inAtomic (gap skip inAtomic mid) = some (second, input') ∧
      pairs = first ++ second := by
  rw [run_seq] at h
  split at h
  · cases h
  · rename_i first mid ha
    split at h
    · cases h
    · rename_i second input'' hb
      obtain ⟨rfl, rfl⟩ := Prod.mk.inj (Option.some.inj h)
      exact ⟨first, mid, second, ha, hb, rfl⟩

theorem run_choice_of_some
    (h : (Expr.choice a b).run skip inAtomic input = some (pairs, input')) :
    a.run skip inAtomic input = some (pairs, input') ∨
      b.run skip inAtomic input = some (pairs, input') := by
  rw [run_choice] at h
  split at h
  · rename_i result ha
    exact Or.inl (ha.trans h)
  · exact Or.inr h

theorem run_opt_of_some
    (h : (Expr.opt e).run skip inAtomic input = some (pairs, input')) :
    e.run skip inAtomic input = some (pairs, input') ∨ pairs = [] ∧ input = input' := by
  rw [run_opt] at h
  split at h
  · rename_i result he
    exact Or.inl (he.trans h)
  · obtain ⟨rfl, rfl⟩ := Prod.mk.inj (Option.some.inj h)
    exact Or.inr ⟨rfl, rfl⟩

theorem run_not_of_some
    (h : (Expr.not e).run skip inAtomic input = some (pairs, input')) :
    e.run skip inAtomic input = none ∧ pairs = [] ∧ input = input' := by
  rw [run_not] at h
  split at h
  · cases h
  · rename_i he
    obtain ⟨rfl, rfl⟩ := Prod.mk.inj (Option.some.inj h)
    exact ⟨he, rfl, rfl⟩

/-- What a rule records of a match of its expression. -/
theorem recorded_of_some {name : R} {result : Option (Match R)}
    (h : (match result with
      | none => none
      | some (inner, mid) =>
          if inAtomic then some (inner, mid)
          else some ([.mk name (input.upTo mid) inner], mid)) = some (pairs, input')) :
    ∃ inner, result = some (inner, input') ∧
      pairs = if inAtomic then inner else [.mk name (input.upTo input') inner] := by
  split at h
  · cases h
  · rename_i inner mid
    split at h
    · rename_i hatomic
      obtain ⟨rfl, rfl⟩ := Prod.mk.inj (Option.some.inj h)
      exact ⟨_, rfl, (if_pos hatomic).symm⟩
    · rename_i hatomic
      obtain ⟨rfl, rfl⟩ := Prod.mk.inj (Option.some.inj h)
      exact ⟨_, rfl, (if_neg hatomic).symm⟩

theorem run_normal_of_some {name : R}
    (h : (Expr.rule name .normal e).run skip inAtomic input = some (pairs, input')) :
    ∃ inner, e.run skip inAtomic input = some (inner, input') ∧
      pairs = if inAtomic then inner else [.mk name (input.upTo input') inner] :=
  recorded_of_some ((run_normal name input).symm.trans h)

theorem run_atomic_of_some {name : R}
    (h : (Expr.rule name .atomic e).run skip inAtomic input = some (pairs, input')) :
    ∃ inner, e.run skip true input = some (inner, input') ∧
      pairs = if inAtomic then inner else [.mk name (input.upTo input') inner] :=
  recorded_of_some ((run_atomic name input).symm.trans h)

section

variable {step : Input → Option (Match R)} {P : List (Pair R) → Input → Input → Prop}

/-- What holds of no rounds, and of one more round before others, holds of the rounds. -/
theorem rounds_inv (hnil : ∀ input, P [] input input)
    (hround : ∀ input mid input' first others, step input = some (first, mid) →
      P others mid input' → P (first ++ others) input input')
    {n : Nat} (h : rounds step n input = (pairs, input')) : P pairs input input' := by
  induction n generalizing input pairs with
  | zero =>
      obtain ⟨rfl, rfl⟩ := Prod.mk.inj h
      exact hnil input
  | succ n ih =>
      unfold rounds at h
      split at h
      · obtain ⟨rfl, rfl⟩ := Prod.mk.inj h
        exact hnil input
      · rename_i first mid hstep
        obtain ⟨rfl, rfl⟩ := Prod.mk.inj h
        exact hround _ _ _ _ _ hstep (ih rfl)

/-- **A repetition** is no round, or one before others that skip first. -/
theorem run_star_inv (hnil : ∀ input, P [] input input)
    (hround : ∀ input mid input' first others,
      e.run skip inAtomic (gap skip inAtomic input) = some (first, mid) →
      P others mid input' → P (first ++ others) input input')
    (h : (Expr.star e).run skip inAtomic input = some (pairs, input')) :
    pairs = [] ∧ input = input' ∨ ∃ first mid others,
      e.run skip inAtomic input = some (first, mid) ∧ P others mid input' ∧
      pairs = first ++ others := by
  rw [run_star] at h
  split at h
  · obtain ⟨rfl, rfl⟩ := Prod.mk.inj (Option.some.inj h)
    exact Or.inl ⟨rfl, rfl⟩
  · rename_i first mid he
    obtain ⟨rfl, rfl⟩ := Prod.mk.inj (Option.some.inj h)
    exact Or.inr ⟨first, mid, _, he, rounds_inv hnil hround rfl, rfl⟩

end

/-! ## Inside atomic rules -/

/-- The texts of an expression where nothing is passed over. -/
def Expr.Matches : Expr R → List Char → Prop
  | .str literal, text => text = literal.toList
  | .satisfy p, text => ∃ c, p c = true ∧ text = [c]
  | .startOfInput, text => text = []
  | .endOfInput, text => text = []
  | .seq a b, text => ∃ first second, text = first ++ second ∧ Matches a first ∧
      Matches b second
  | .choice a b, text => Matches a text ∨ Matches b text
  | .star e, text => ∃ parts, text = List.flatten parts ∧ ∀ part ∈ parts, Matches e part
  | .opt e, text => text = [] ∨ Matches e text
  | .not _, text => text = []
  | .rule _ _ e, text => Matches e text

/-- Inside an atomic rule, a match records nothing and takes a text of `T`. -/
def Takes (skip : Input → Input) (e : Expr R) (T : List Char → Prop) : Prop :=
  ∀ input pairs input', e.run skip true input = some (pairs, input') →
    pairs = [] ∧ ∃ text, input.rest = text ++ input'.rest ∧ T text

section

variable {T T' : List Char → Prop}

theorem Takes.mono (h : Takes skip e T) (hT : ∀ text, T text → T' text) :
    Takes skip e T' := by
  intro input pairs input' hrun
  obtain ⟨hpairs, text, hrest, htext⟩ := h input pairs input' hrun
  exact ⟨hpairs, text, hrest, hT text htext⟩

theorem Takes.seq (ha : Takes skip a T) (hb : Takes skip b T') :
    Takes skip (.seq a b) fun text =>
      ∃ first second, text = first ++ second ∧ T first ∧ T' second := by
  intro input pairs input' hrun
  obtain ⟨first, mid, second, hfirst, hsecond, rfl⟩ := run_seq_of_some hrun
  obtain ⟨rfl, text, hrest, htext⟩ := ha _ _ _ hfirst
  obtain ⟨rfl, text', hrest', htext'⟩ := hb _ _ _ hsecond
  have hmid : mid.rest = text' ++ input'.rest := hrest'
  refine ⟨rfl, text ++ text', ?_, text, text', rfl, htext, htext'⟩
  rw [hrest, hmid, List.append_assoc]

theorem Takes.star (h : Takes skip e T) :
    Takes skip (.star e) fun text =>
      ∃ parts, text = List.flatten parts ∧ ∀ part ∈ parts, T part := by
  intro input pairs input' hrun
  have hround : ∀ (input mid input' : Input) (first others : List (Pair R)),
      e.run skip true input = some (first, mid) →
      (others = [] ∧ ∃ parts, mid.rest = List.flatten parts ++ input'.rest ∧
        ∀ part ∈ parts, T part) →
      first ++ others = [] ∧ ∃ parts, input.rest = List.flatten parts ++ input'.rest ∧
        ∀ part ∈ parts, T part := by
    rintro input mid input' first others hfirst ⟨rfl, parts, hmid, hparts⟩
    obtain ⟨rfl, text, hrest, htext⟩ := h _ _ _ hfirst
    refine ⟨rfl, text :: parts, ?_, List.forall_mem_cons.mpr ⟨htext, hparts⟩⟩
    rw [hrest, hmid, List.flatten_cons, List.append_assoc]
  have hnil : ∀ input : Input, ([] : List (Pair R)) = [] ∧
      ∃ parts, input.rest = List.flatten parts ++ input.rest ∧ ∀ part ∈ parts, T part :=
    fun input => ⟨rfl, [], rfl, nofun⟩
  rcases run_star_inv hnil hround hrun with
    ⟨rfl, rfl⟩ | ⟨first, mid, others, hfirst, hothers, rfl⟩
  · exact ⟨rfl, [], rfl, [], rfl, nofun⟩
  · obtain ⟨hpairs, parts, hrest, hparts⟩ := hround _ _ _ _ _ hfirst hothers
    exact ⟨hpairs, _, hrest, parts, rfl, hparts⟩

end

/-- Inside an atomic rule, a match takes a text of its expression. -/
theorem takes_matches (e : Expr R) : Takes skip e e.Matches := by
  induction e with
  | str literal =>
      intro input pairs input' h
      obtain ⟨rfl, hrest⟩ := run_str_of_some h
      exact ⟨rfl, _, hrest, rfl⟩
  | satisfy p =>
      intro input pairs input' h
      obtain ⟨rfl, c, hc, hrest⟩ := run_satisfy_of_some h
      exact ⟨rfl, [c], hrest, c, hc, rfl⟩
  | startOfInput =>
      intro input pairs input' h
      obtain ⟨rfl, rfl⟩ := run_startOfInput_of_some h
      exact ⟨rfl, [], rfl, rfl⟩
  | endOfInput =>
      intro input pairs input' h
      obtain ⟨rfl, rfl, -⟩ := run_endOfInput_of_some h
      exact ⟨rfl, [], rfl, rfl⟩
  | seq a b iha ihb => exact iha.seq ihb
  | choice a b iha ihb =>
      intro input pairs input' h
      rcases run_choice_of_some h with h | h
      · exact iha.mono (fun _ => Or.inl) _ _ _ h
      · exact ihb.mono (fun _ => Or.inr) _ _ _ h
  | star e ih => exact ih.star
  | opt e ih =>
      intro input pairs input' h
      rcases run_opt_of_some h with h | ⟨rfl, rfl⟩
      · exact ih.mono (fun _ => Or.inr) _ _ _ h
      · exact ⟨rfl, [], rfl, Or.inl rfl⟩
  | not e ih =>
      intro input pairs input' h
      obtain ⟨-, rfl, rfl⟩ := run_not_of_some h
      exact ⟨rfl, [], rfl, rfl⟩
  | rule name kind e ih =>
      intro input pairs input' h
      cases kind with
      | normal =>
          obtain ⟨inner, h, rfl⟩ := run_normal_of_some h
          exact ih _ _ _ h
      | silent => exact ih _ _ _ h
      | atomic =>
          obtain ⟨inner, h, rfl⟩ := run_atomic_of_some h
          exact ih _ _ _ h

/-! ## Outside of atomic rules -/

/-- The tokens of an expression, which are its literals and its atomic rules, and the
pairs it records for them. -/
def Expr.Derives : Expr R → List String → List (Pair R) → Prop
  | .str literal, ts, pairs => ts = [literal] ∧ pairs = []
  | .satisfy p, ts, pairs => ∃ c, p c = true ∧ ts = [String.ofList [c]] ∧ pairs = []
  | .startOfInput, ts, pairs => ts = [] ∧ pairs = []
  | .endOfInput, ts, pairs => ts = [] ∧ pairs = []
  | .seq a b, ts, pairs => ∃ ts₁ ts₂ pairs₁ pairs₂, ts = ts₁ ++ ts₂ ∧
      pairs = pairs₁ ++ pairs₂ ∧ Derives a ts₁ pairs₁ ∧ Derives b ts₂ pairs₂
  | .choice a b, ts, pairs => Derives a ts pairs ∨ Derives b ts pairs
  | .star e, ts, pairs => ∃ parts : List (List String × List (Pair R)),
      ts = parts.flatMap Prod.fst ∧ pairs = parts.flatMap Prod.snd ∧
        ∀ part ∈ parts, Derives e part.1 part.2
  | .opt e, ts, pairs => (ts = [] ∧ pairs = []) ∨ Derives e ts pairs
  | .not _, ts, pairs => ts = [] ∧ pairs = []
  | .rule name .normal e, ts, pairs =>
      ∃ text inner, pairs = [.mk name text inner] ∧ Derives e ts inner
  | .rule _ .silent e, ts, pairs => Derives e ts pairs
  | .rule name .atomic e, ts, pairs =>
      ∃ t : String, e.Matches t.toList ∧ ts = [t] ∧ pairs = [.mk name t []]

/-- The texts of the tokens, with a gap around every one of them that may be empty. -/
inductive Spaced (Gap : List Char → Prop) : List String → List Char → Prop
  | done {text : List Char} (h : Gap text) : Spaced Gap [] text
  | token {text : List Char} {t : String} {ts : List String} {rest : List Char}
      (hgap : Gap text) (h : Spaced Gap ts rest) :
      Spaced Gap (t :: ts) (text ++ (t.toList ++ rest))

/-- What `skip` passes over is a gap, and gaps can be put together. -/
structure Skips (skip : Input → Input) (Gap : List Char → Prop) : Prop where
  nil : Gap []
  append : ∀ {text text'}, Gap text → Gap text' → Gap (text ++ text')
  skips : ∀ input, ∃ text, input.rest = text ++ (skip input).rest ∧ Gap text

section

variable {Gap : List Char → Prop} {ts ts' : List String} {text text' : List Char}

theorem Spaced.gap_append (hskip : Skips skip Gap) (hgap : Gap text)
    (h : Spaced Gap ts text') : Spaced Gap ts (text ++ text') := by
  cases h with
  | done h => exact .done (hskip.append hgap h)
  | @token gap t ts rest hgap' h =>
      rw [← List.append_assoc]
      exact .token (hskip.append hgap hgap') h

theorem Spaced.append (hskip : Skips skip Gap) (h : Spaced Gap ts text)
    (h' : Spaced Gap ts' text') : Spaced Gap (ts ++ ts') (text ++ text') := by
  induction h with
  | done hgap => exact h'.gap_append hskip hgap
  | @token gap t ts rest hgap _ ih =>
      rw [List.cons_append, List.append_assoc, List.append_assoc]
      exact .token hgap ih

theorem Spaced.singleton (hskip : Skips skip Gap) (t : String) :
    Spaced Gap [t] t.toList := by
  have h : Spaced Gap [t] ([] ++ (t.toList ++ [])) := .token hskip.nil (.done hskip.nil)
  rwa [List.nil_append, List.append_nil] at h

/-- A match of `e` takes a text of tokens that `e` derives, and records their pairs. -/
def Parsed (Gap : List Char → Prop) (D : List String → List (Pair R) → Prop)
    (pairs : List (Pair R)) (input input' : Input) : Prop :=
  ∃ ts text, input.rest = text ++ input'.rest ∧ Spaced Gap ts text ∧ D ts pairs

theorem Parsed.mono {D D' : List String → List (Pair R) → Prop}
    {pairs' : List (Pair R)} (h : Parsed Gap D pairs input input')
    (hD : ∀ ts, D ts pairs → D' ts pairs') : Parsed Gap D' pairs' input input' := by
  obtain ⟨ts, text, hrest, hspaced, hpairs⟩ := h
  exact ⟨ts, text, hrest, hspaced, hD ts hpairs⟩

/-- Nothing was matched. -/
theorem Parsed.nil (hskip : Skips skip Gap) {D : List String → List (Pair R) → Prop}
    (hD : D [] pairs) (input : Input) : Parsed Gap D pairs input input :=
  ⟨[], [], rfl, .done hskip.nil, hD⟩

section

variable {D D' D'' : List String → List (Pair R) → Prop} {pairs' : List (Pair R)}
  {mid : Input}

/-- One match right after another. -/
theorem Parsed.append (hskip : Skips skip Gap) (h : Parsed Gap D pairs input mid)
    (h' : Parsed Gap D' pairs' mid input')
    (hD : ∀ {ts ts'}, D ts pairs → D' ts' pairs' → D'' (ts ++ ts') (pairs ++ pairs')) :
    Parsed Gap D'' (pairs ++ pairs') input input' := by
  obtain ⟨ts, text, hrest, hspaced, hpairs⟩ := h
  obtain ⟨ts', text', hrest', hspaced', hpairs'⟩ := h'
  refine ⟨ts ++ ts', text ++ text', ?_, hspaced.append hskip hspaced', hD hpairs hpairs'⟩
  rw [hrest, hrest', List.append_assoc]

/-- What is skipped before a match stands before its tokens. -/
theorem Parsed.of_skip (hskip : Skips skip Gap) (h : Parsed Gap D pairs (skip input) input') :
    Parsed Gap D pairs input input' := by
  obtain ⟨ts, text, hrest, hspaced, hpairs⟩ := h
  obtain ⟨between, hinput, hgap⟩ := hskip.skips input
  refine ⟨ts, between ++ text, ?_, hspaced.gap_append hskip hgap, hpairs⟩
  rw [hinput, hrest, List.append_assoc]

end

/-- **Every match has a derivation**, of the tokens of the text it takes. -/
theorem derives_of_run (hskip : Skips skip Gap) (e : Expr R) :
    ∀ input pairs input', e.run skip false input = some (pairs, input') →
      Parsed Gap e.Derives pairs input input' := by
  induction e with
  | str literal =>
      intro input pairs input' h
      obtain ⟨rfl, hrest⟩ := run_str_of_some h
      exact ⟨[literal], _, hrest, .singleton hskip literal, rfl, rfl⟩
  | satisfy p =>
      intro input pairs input' h
      obtain ⟨rfl, c, hc, hrest⟩ := run_satisfy_of_some h
      have hspaced := Spaced.singleton hskip (String.ofList [c])
      rw [String.toList_ofList] at hspaced
      exact ⟨_, _, hrest, hspaced, c, hc, rfl, rfl⟩
  | startOfInput =>
      intro input pairs input' h
      obtain ⟨rfl, rfl⟩ := run_startOfInput_of_some h
      exact .nil hskip ⟨rfl, rfl⟩ input
  | endOfInput =>
      intro input pairs input' h
      obtain ⟨rfl, rfl, -⟩ := run_endOfInput_of_some h
      exact .nil hskip ⟨rfl, rfl⟩ input
  | seq a b iha ihb =>
      intro input pairs input' h
      obtain ⟨first, mid, second, hfirst, hsecond, rfl⟩ := run_seq_of_some h
      exact (iha _ _ _ hfirst).append hskip (.of_skip hskip (ihb _ _ _ hsecond))
        fun hts hts' => ⟨_, _, first, second, rfl, rfl, hts, hts'⟩
  | choice a b iha ihb =>
      intro input pairs input' h
      rcases run_choice_of_some h with h | h
      · exact (iha _ _ _ h).mono fun _ => Or.inl
      · exact (ihb _ _ _ h).mono fun _ => Or.inr
  | star e ih =>
      intro input pairs input' h
      have hcons : ∀ {ts ts' : List String} {first others : List (Pair R)},
          e.Derives ts first → (Expr.star e).Derives ts' others →
          (Expr.star e).Derives (ts ++ ts') (first ++ others) := by
        rintro ts _ first _ hts ⟨parts, rfl, rfl, hparts⟩
        exact ⟨(ts, first) :: parts, rfl, rfl, List.forall_mem_cons.mpr ⟨hts, hparts⟩⟩
      have hnil : ∀ input, Parsed Gap (Expr.star e).Derives [] input input :=
        fun input => .nil hskip ⟨[], rfl, rfl, nofun⟩ input
      -- a round skips before it matches
      have hround : ∀ (input mid input' : Input) (first others : List (Pair R)),
          e.run skip false (gap skip false input) = some (first, mid) →
          Parsed Gap (Expr.star e).Derives others mid input' →
          Parsed Gap (Expr.star e).Derives (first ++ others) input input' := by
        intro input mid input' first others hfirst hothers
        exact .of_skip hskip ((ih _ _ _ hfirst).append hskip hothers hcons)
      rcases run_star_inv hnil hround h with
        ⟨rfl, rfl⟩ | ⟨first, mid, others, hfirst, hothers, rfl⟩
      · exact hnil input
      · exact (ih _ _ _ hfirst).append hskip hothers hcons
  | opt e ih =>
      intro input pairs input' h
      rcases run_opt_of_some h with h | ⟨rfl, rfl⟩
      · exact (ih _ _ _ h).mono fun _ => Or.inr
      · exact .nil hskip (Or.inl ⟨rfl, rfl⟩) input
  | not e ih =>
      intro input pairs input' h
      obtain ⟨-, rfl, rfl⟩ := run_not_of_some h
      exact .nil hskip ⟨rfl, rfl⟩ input
  | rule name kind e ih =>
      intro input pairs input' h
      cases kind with
      | normal =>
          obtain ⟨inner, hinner, rfl⟩ := run_normal_of_some h
          exact (ih _ _ _ hinner).mono fun ts hts => ⟨_, inner, rfl, hts⟩
      | silent => exact ih _ _ _ h
      | atomic =>
          obtain ⟨inner, hinner, rfl⟩ := run_atomic_of_some h
          obtain ⟨rfl, text, hrest, htext⟩ := takes_matches e _ _ _ hinner
          have hcovered : input.upTo input' = String.ofList text := by
            rw [Input.upTo, hrest]
            exact covered_append text input'.rest
          have hspaced := Spaced.singleton hskip (String.ofList text)
          rw [String.toList_ofList] at hspaced
          refine ⟨_, text, hrest, hspaced, String.ofList text, ?_, rfl, ?_⟩
          · rwa [String.toList_ofList]
          · rw [hcovered]
            rfl

end

/-- What the implicit rules pass over, when it is made of gaps. -/
theorem Trivia.skips {trivia : Trivia R} {Gap : List Char → Prop} (hnil : Gap [])
    (happend : ∀ {text text'}, Gap text → Gap text' → Gap (text ++ text'))
    (hwhitespace : Takes id trivia.whitespace Gap) (hcomment : Takes id trivia.comment Gap) :
    Skips trivia.skip Gap := by
  have hflatten : ∀ text, (∃ parts, text = List.flatten parts ∧ ∀ part ∈ parts, Gap part) →
      Gap text := by
    rintro _ ⟨parts, rfl, hparts⟩
    induction parts with
    | nil => exact hnil
    | cons part parts ih =>
        rw [List.forall_mem_cons] at hparts
        exact happend hparts.1 (ih hparts.2)
  have hseq : ∀ text, (∃ first second, text = first ++ second ∧ Gap first ∧ Gap second) →
      Gap text := by
    rintro _ ⟨first, second, rfl, hfirst, hsecond⟩
    exact happend hfirst hsecond
  have hblank : Takes id (.star trivia.whitespace) Gap := hwhitespace.star.mono hflatten
  have hcommented : Takes id (.star (.seq trivia.comment (.star trivia.whitespace))) Gap :=
    ((hcomment.seq hblank).mono hseq).star.mono hflatten
  refine ⟨hnil, happend, fun input => ?_⟩
  cases hrun : Expr.run id true (.seq (.star trivia.whitespace)
      (.star (.seq trivia.comment (.star trivia.whitespace)))) input with
  | none =>
      have hskip : trivia.skip input = input := by simp only [Trivia.skip, hrun]
      exact ⟨[], by rw [hskip, List.nil_append], hnil⟩
  | some result =>
      have hskip : trivia.skip input = result.2 := by simp only [Trivia.skip, hrun]
      rw [hskip]
      exact ((hblank.seq hcommented).mono hseq _ _ _ hrun).2

end Peg

end Foundations
