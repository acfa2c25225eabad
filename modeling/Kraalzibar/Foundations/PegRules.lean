import Kraalzibar.Foundations.Peg
import Mathlib.Data.List.Forall2

/-!
# Rules for parsing expression grammars

A match is a function of the text alone, up to positions.  Its rules come in two layers.

* `Parses`, `Refuses` — an expression matches a text up to a rest, or does not match;
  one rule for each operator, and `Rounds` for the rounds of a repetition;
* `Scan` — texts as sequences of tokens, with what may stand between them;
* `Scan.Reads`, `Scan.Rejects` — an expression matches the first tokens of a sequence,
  or does not match it.  Sequences compose, and a repetition reads one item after another
  (`Scan.Reads.star`).
-/

namespace Foundations

namespace Peg

variable {R : Type} {skip : Input → Input} {inAtomic : Bool} {e a b : Expr R}
  {text mid mid' rest : List Char} {pairs pairs' : List (Pair R)}

/-! ## Texts -/

/-- Matching `e` at `text` records `pairs` and leaves `rest`. -/
def Parses (skip : Input → Input) (inAtomic : Bool) (e : Expr R) (text : List Char)
    (pairs : List (Pair R)) (rest : List Char) : Prop :=
  ∀ position, ∃ position',
    e.run skip inAtomic ⟨position, text⟩ = some (pairs, ⟨position', rest⟩)

/-- `e` does not match at `text`. -/
def Refuses (skip : Input → Input) (inAtomic : Bool) (e : Expr R) (text : List Char) : Prop :=
  ∀ position, e.run skip inAtomic ⟨position, text⟩ = none

/-- `skip` passes over the start of `text` and leaves `rest`. -/
def Passes (skip : Input → Input) (text rest : List Char) : Prop :=
  ∀ position, ∃ position', skip ⟨position, text⟩ = ⟨position', rest⟩

/-- What is passed over between the parts of a rule. -/
def gap (skip : Input → Input) (inAtomic : Bool) (input : Input) : Input :=
  if inAtomic then input else skip input

/-! ### What each operator runs -/

theorem run_str (literal : String) (input : Input) :
    (.str literal : Expr R).run skip inAtomic input =
      if literal.toList.isPrefixOf input.rest then
        some ([], input.drop literal.toList.length)
      else none := rfl

theorem run_seq (input : Input) : (Expr.seq a b).run skip inAtomic input =
    match a.run skip inAtomic input with
    | none => none
    | some (pairs, input') =>
        match b.run skip inAtomic (gap skip inAtomic input') with
        | none => none
        | some (pairs', input'') => some (pairs ++ pairs', input'') := rfl

theorem run_choice (input : Input) : (Expr.choice a b).run skip inAtomic input =
    match a.run skip inAtomic input with
    | some result => some result
    | none => b.run skip inAtomic input := rfl

theorem run_star (input : Input) : (Expr.star e).run skip inAtomic input =
    match e.run skip inAtomic input with
    | none => some ([], input)
    | some (pairs, input') =>
        let (pairs', input'') :=
          rounds (fun input => e.run skip inAtomic (gap skip inAtomic input))
            input'.rest.length input'
        some (pairs ++ pairs', input'') := rfl

theorem run_opt (input : Input) : (Expr.opt e).run skip inAtomic input =
    match e.run skip inAtomic input with
    | some result => some result
    | none => some ([], input) := rfl

theorem run_not (input : Input) : (Expr.not e).run skip inAtomic input =
    match e.run skip inAtomic input with
    | some _ => none
    | none => some ([], input) := rfl

theorem run_normal (name : R) (input : Input) :
    (Expr.rule name .normal e).run skip inAtomic input =
      match e.run skip inAtomic input with
      | none => none
      | some (pairs, input') =>
          if inAtomic then some (pairs, input')
          else some ([.mk name (input.upTo input') pairs], input') := rfl

theorem run_silent (name : R) (input : Input) :
    (Expr.rule name .silent e).run skip inAtomic input = e.run skip inAtomic input := rfl

theorem run_atomic (name : R) (input : Input) :
    (Expr.rule name .atomic e).run skip inAtomic input =
      match e.run skip true input with
      | none => none
      | some (pairs, input') =>
          if inAtomic then some (pairs, input')
          else some ([.mk name (input.upTo input') pairs], input') := rfl

/-! ### One rule for each operator -/

theorem Passes.atomic : Passes (gap skip true) text text :=
  fun position => ⟨position, rfl⟩

theorem Passes.gap (h : Passes skip text rest) : Passes (gap skip false) text rest := h

theorem Parses.str (literal : String) :
    Parses skip inAtomic (.str literal : Expr R) (literal.toList ++ rest) [] rest := by
  intro position
  refine ⟨position + literal.toList.length, ?_⟩
  have hprefix : literal.toList.isPrefixOf (literal.toList ++ rest) = true := by
    rw [List.isPrefixOf_iff_prefix]
    exact List.prefix_append _ _
  rw [run_str, if_pos hprefix, Input.drop, List.drop_left]

theorem Refuses.str {literal : String} (h : ¬ literal.toList <+: text) :
    Refuses skip inAtomic (.str literal : Expr R) text := by
  intro position
  have hprefix : ¬ literal.toList.isPrefixOf text = true := by
    rwa [List.isPrefixOf_iff_prefix]
  rw [run_str, if_neg hprefix]

theorem Parses.satisfy {p : Char → Bool} {c : Char} (h : p c = true) :
    Parses skip inAtomic (.satisfy p : Expr R) (c :: rest) [] rest := by
  intro position
  refine ⟨position + 1, ?_⟩
  exact if_pos h

theorem Refuses.satisfy {p : Char → Bool} (h : ∀ c ∈ text.head?, p c = false) :
    Refuses skip inAtomic (.satisfy p : Expr R) text := by
  intro position
  cases text with
  | nil => rfl
  | cons c text =>
      have hc : ¬ p c = true := by simpa using h c rfl
      exact if_neg hc

theorem Parses.endOfInput : Parses skip inAtomic (.endOfInput : Expr R) [] [] [] :=
  fun position => ⟨position, rfl⟩

theorem Parses.seq (ha : Parses skip inAtomic a text pairs mid)
    (hgap : Passes (Peg.gap skip inAtomic) mid mid')
    (hb : Parses skip inAtomic b mid' pairs' rest) :
    Parses skip inAtomic (.seq a b) text (pairs ++ pairs') rest := by
  intro position
  obtain ⟨p, ha⟩ := ha position
  obtain ⟨p', hgap⟩ := hgap p
  obtain ⟨p'', hb⟩ := hb p'
  refine ⟨p'', ?_⟩
  simp only [run_seq, ha, hgap, hb]

theorem Refuses.seq_left (ha : Refuses skip inAtomic a text) :
    Refuses skip inAtomic (.seq a b) text := by
  intro position
  simp only [run_seq, ha position]

theorem Refuses.seq_right (ha : Parses skip inAtomic a text pairs mid)
    (hgap : Passes (Peg.gap skip inAtomic) mid mid') (hb : Refuses skip inAtomic b mid') :
    Refuses skip inAtomic (.seq a b) text := by
  intro position
  obtain ⟨p, ha⟩ := ha position
  obtain ⟨p', hgap⟩ := hgap p
  simp only [run_seq, ha, hgap, hb p']

theorem Parses.choice_left (ha : Parses skip inAtomic a text pairs rest) :
    Parses skip inAtomic (.choice a b) text pairs rest := by
  intro position
  obtain ⟨p, ha⟩ := ha position
  exact ⟨p, by simp only [run_choice, ha]⟩

theorem Parses.choice_right (ha : Refuses skip inAtomic a text)
    (hb : Parses skip inAtomic b text pairs rest) :
    Parses skip inAtomic (.choice a b) text pairs rest := by
  intro position
  obtain ⟨p, hb⟩ := hb position
  exact ⟨p, by simp only [run_choice, ha position, hb]⟩

theorem Refuses.choice (ha : Refuses skip inAtomic a text)
    (hb : Refuses skip inAtomic b text) : Refuses skip inAtomic (.choice a b) text := by
  intro position
  simp only [run_choice, ha position, hb position]

theorem Parses.opt_some (h : Parses skip inAtomic e text pairs rest) :
    Parses skip inAtomic (.opt e) text pairs rest := by
  intro position
  obtain ⟨p, h⟩ := h position
  exact ⟨p, by simp only [run_opt, h]⟩

theorem Parses.opt_none (h : Refuses skip inAtomic e text) :
    Parses skip inAtomic (.opt e) text [] text := by
  intro position
  exact ⟨position, by simp only [run_opt, h position]⟩

theorem Parses.not (h : Refuses skip inAtomic e text) :
    Parses skip inAtomic (.not e) text [] text := by
  intro position
  exact ⟨position, by simp only [run_not, h position]⟩

theorem Refuses.not (h : Parses skip inAtomic e text pairs rest) :
    Refuses skip inAtomic (.not e) text := by
  intro position
  obtain ⟨p, h⟩ := h position
  simp only [run_not, h]

/-- The text a rule covers, from where it starts to where it stops. -/
def covered (text rest : List Char) : String :=
  String.ofList (text.take (text.length - rest.length))

@[simp] theorem covered_append (start rest : List Char) :
    covered (start ++ rest) rest = String.ofList start := by
  simp [covered]

theorem Parses.normal {name : R} (h : Parses skip false e text pairs rest) :
    Parses skip false (.rule name .normal e) text [.mk name (covered text rest) pairs]
      rest := by
  intro position
  obtain ⟨p, h⟩ := h position
  exact ⟨p, by simp only [run_normal, h]; rfl⟩

theorem Refuses.normal {name : R} (h : Refuses skip inAtomic e text) :
    Refuses skip inAtomic (.rule name .normal e) text := by
  intro position
  simp only [run_normal, h position]

theorem Parses.silent {name : R} (h : Parses skip inAtomic e text pairs rest) :
    Parses skip inAtomic (.rule name .silent e) text pairs rest := by
  intro position
  obtain ⟨p, h⟩ := h position
  exact ⟨p, by simp only [run_silent, h]⟩

theorem Refuses.silent {name : R} (h : Refuses skip inAtomic e text) :
    Refuses skip inAtomic (.rule name .silent e) text := by
  intro position
  simp only [run_silent, h position]

theorem Parses.atomic {name : R} (h : Parses skip true e text pairs rest) :
    Parses skip false (.rule name .atomic e) text [.mk name (covered text rest) pairs]
      rest := by
  intro position
  obtain ⟨p, h⟩ := h position
  exact ⟨p, by simp only [run_atomic, h]; rfl⟩

/-! ### Repetitions -/

/-- The rounds of a repetition after the first: each passes over the gap, matches, and
takes at least one character, until one fails. -/
inductive Rounds (skip : Input → Input) (inAtomic : Bool) (e : Expr R) :
    List Char → List (Pair R) → List Char → Prop
  | stop {text : List Char}
      (h : ∀ position, e.run skip inAtomic (gap skip inAtomic ⟨position, text⟩) = none) :
      Rounds skip inAtomic e text [] text
  | round {text mid mid' rest : List Char} {pairs pairs' : List (Pair R)}
      (hgap : Passes (gap skip inAtomic) text mid) (he : Parses skip inAtomic e mid pairs mid')
      (hshorter : mid'.length < text.length) (h : Rounds skip inAtomic e mid' pairs' rest) :
      Rounds skip inAtomic e text (pairs ++ pairs') rest

/-- Every round takes a character, so there is fuel for all of them. -/
theorem Rounds.run (h : Rounds skip inAtomic e text pairs rest) {n : Nat}
    (hn : text.length ≤ n) (position : Nat) :
    ∃ position', rounds (fun input => e.run skip inAtomic (gap skip inAtomic input)) n
      ⟨position, text⟩ = (pairs, ⟨position', rest⟩) := by
  induction h generalizing n position with
  | stop h =>
      refine ⟨position, ?_⟩
      cases n with
      | zero => rfl
      | succ n => simp only [rounds, h position]
  | round hgap he hshorter _ ih =>
      cases n with
      | zero => omega
      | succ n =>
          obtain ⟨p, hgap⟩ := hgap position
          obtain ⟨p', he⟩ := he p
          obtain ⟨p'', hrest⟩ := @ih n (by omega) p'
          exact ⟨p'', by simp only [rounds, hgap, he, hrest]⟩

theorem Parses.star_nil (h : Refuses skip inAtomic e text) :
    Parses skip inAtomic (.star e) text [] text := by
  intro position
  exact ⟨position, by simp only [run_star, h position]⟩

theorem Parses.star_cons (he : Parses skip inAtomic e text pairs mid)
    (hrounds : Rounds skip inAtomic e mid pairs' rest) :
    Parses skip inAtomic (.star e) text (pairs ++ pairs') rest := by
  intro position
  obtain ⟨p, he⟩ := he position
  obtain ⟨p', hrounds⟩ := hrounds.run (Nat.le_refl mid.length) p
  exact ⟨p', by simp only [run_star, he, hrounds]⟩

/-- Where nothing is passed over, the first round is like the others. -/
theorem Rounds.star (h : Rounds skip true e text pairs rest) :
    Parses skip true (.star e) text pairs rest := by
  cases h with
  | stop h => exact .star_nil h
  | round hgap he _ hrounds =>
      obtain ⟨p, hgap⟩ := hgap 0
      obtain ⟨-, rfl⟩ := Input.mk.inj hgap
      exact he.star_cons hrounds

theorem Trivia.passes {trivia : Trivia R}
    (h : Parses id true (.seq (.star trivia.whitespace)
      (.star (.seq trivia.comment (.star trivia.whitespace)))) text pairs rest) :
    Passes trivia.skip text rest := by
  intro position
  obtain ⟨position', hrun⟩ := h position
  exact ⟨position', by simp only [Trivia.skip, hrun]⟩

/-! ## Token sequences -/

/-- How a text spells a sequence of tokens. -/
structure Scan (T : Type) where
  skip : Input → Input
  /-- The text starts with the first token, and goes on with the others. -/
  Begins : List T → List Char → Prop
  /-- The text is one that may stand after something that was read: there may be
  something to pass over before the first token. -/
  Follows : List T → List Char → Prop
  follows_of_begins : ∀ {ts text}, Begins ts text → Follows ts text
  passes : ∀ {ts text}, Follows ts text →
    ∃ start, Passes skip text start ∧ Begins ts start ∧ start.length ≤ text.length

namespace Scan

variable {T : Type} {s : Scan T} {ts ts' ts'' : List T} {P P' : List (Pair R) → Prop}

/-- At a text that begins with the tokens `ts`, the expression matches up to the tokens
`ts'`, and records pairs with the property `P`.  For each token that was read it takes a
character at least. -/
def Reads (s : Scan T) (e : Expr R) (ts ts' : List T) (P : List (Pair R) → Prop) : Prop :=
  ∀ text, s.Begins ts text → ∃ pairs rest, Parses s.skip false e text pairs rest ∧
    s.Follows ts' rest ∧ rest.length + ts.length ≤ text.length + ts'.length ∧ P pairs

/-- The expression does not match at a text that begins with the tokens. -/
def Rejects (s : Scan T) (e : Expr R) (ts : List T) : Prop :=
  ∀ text, s.Begins ts text → Refuses s.skip false e text

theorem Reads.mono (h : s.Reads e ts ts' P) (hP : ∀ pairs, P pairs → P' pairs) :
    s.Reads e ts ts' P' := by
  intro text htext
  obtain ⟨pairs, rest, hparses, hfollows, hlength, hpairs⟩ := h text htext
  exact ⟨pairs, rest, hparses, hfollows, hlength, hP pairs hpairs⟩

theorem Reads.seq (ha : s.Reads a ts ts' P) (hb : s.Reads b ts' ts'' P') :
    s.Reads (.seq a b) ts ts'' fun pairs =>
      ∃ first second, pairs = first ++ second ∧ P first ∧ P' second := by
  intro text htext
  obtain ⟨first, mid, hfirst, hfollows, hlength, hP⟩ := ha text htext
  obtain ⟨start, hpasses, hbegins, hshorter⟩ := s.passes hfollows
  obtain ⟨second, rest, hsecond, hfollows', hlength', hP'⟩ := hb start hbegins
  exact ⟨first ++ second, rest, hfirst.seq hpasses.gap hsecond, hfollows', by omega,
    first, second, rfl, hP, hP'⟩

theorem Rejects.seq_left (ha : s.Rejects a ts) : s.Rejects (.seq a b) ts :=
  fun text htext => (ha text htext).seq_left

theorem Rejects.seq_right (ha : s.Reads a ts ts' P) (hb : s.Rejects b ts') :
    s.Rejects (.seq a b) ts := by
  intro text htext
  obtain ⟨pairs, mid, hparses, hfollows, -, -⟩ := ha text htext
  obtain ⟨start, hpasses, hbegins, -⟩ := s.passes hfollows
  exact .seq_right hparses hpasses.gap (hb start hbegins)

theorem Reads.choice_left (ha : s.Reads a ts ts' P) : s.Reads (.choice a b) ts ts' P := by
  intro text htext
  obtain ⟨pairs, rest, hparses, h⟩ := ha text htext
  exact ⟨pairs, rest, hparses.choice_left, h⟩

theorem Reads.choice_right (ha : s.Rejects a ts) (hb : s.Reads b ts ts' P) :
    s.Reads (.choice a b) ts ts' P := by
  intro text htext
  obtain ⟨pairs, rest, hparses, h⟩ := hb text htext
  exact ⟨pairs, rest, .choice_right (ha text htext) hparses, h⟩

theorem Rejects.choice (ha : s.Rejects a ts) (hb : s.Rejects b ts) :
    s.Rejects (.choice a b) ts :=
  fun text htext => (ha text htext).choice (hb text htext)

theorem Reads.opt_some (h : s.Reads e ts ts' P) : s.Reads (.opt e) ts ts' P := by
  intro text htext
  obtain ⟨pairs, rest, hparses, h⟩ := h text htext
  exact ⟨pairs, rest, hparses.opt_some, h⟩

theorem Reads.opt_none (h : s.Rejects e ts) :
    s.Reads (.opt e) ts ts fun pairs => pairs = [] := by
  intro text htext
  exact ⟨[], text, .opt_none (h text htext), s.follows_of_begins htext, Nat.le_refl _, rfl⟩

theorem Reads.normal {name : R} (h : s.Reads e ts ts' P) :
    s.Reads (.rule name .normal e) ts ts' fun pairs =>
      ∃ text inner, pairs = [.mk name text inner] ∧ P inner := by
  intro text htext
  obtain ⟨pairs, rest, hparses, hfollows, hlength, hP⟩ := h text htext
  exact ⟨_, rest, hparses.normal, hfollows, hlength, _, pairs, rfl, hP⟩

theorem Rejects.normal {name : R} (h : s.Rejects e ts) :
    s.Rejects (.rule name .normal e) ts :=
  fun text htext => (h text htext).normal

theorem Reads.silent {name : R} (h : s.Reads e ts ts' P) :
    s.Reads (.rule name .silent e) ts ts' P := by
  intro text htext
  obtain ⟨pairs, rest, hparses, h⟩ := h text htext
  exact ⟨pairs, rest, hparses.silent, h⟩

theorem Rejects.silent {name : R} (h : s.Rejects e ts) :
    s.Rejects (.rule name .silent e) ts :=
  fun text htext => (h text htext).silent

section Star

variable {α : Type} {items : List α} {toks : α → List T}
  {Item : α → List (Pair R) → Prop} {M : List T → Prop}

/-- What may follow an item follows it: another item, or what comes after the last. -/
theorem next_of_items (hend : M ts) (hmay : ∀ x ∈ items, ∀ ts', M (toks x ++ ts')) :
    M (items.flatMap toks ++ ts) := by
  cases items with
  | nil => exact hend
  | cons x items =>
      rw [List.flatMap_cons, List.append_assoc]
      exact hmay x List.mem_cons_self _

/-- The rounds after the first read one item each, and stop before `ts`. -/
theorem Reads.rounds (hstop : s.Rejects e ts) (hend : M ts)
    (hmay : ∀ x ∈ items, ∀ ts', M (toks x ++ ts'))
    (hitem : ∀ x ∈ items, toks x ≠ [] ∧
      ∀ ts', M ts' → s.Reads e (toks x ++ ts') ts' (Item x))
    {text : List Char} (htext : s.Follows (items.flatMap toks ++ ts) text) :
    ∃ groups rest, Rounds s.skip false e text (List.flatten groups) rest ∧
      s.Follows ts rest ∧
      rest.length + (items.flatMap toks).length ≤ text.length ∧
      List.Forall₂ Item items groups := by
  induction items generalizing text with
  | nil =>
      obtain ⟨start, hpasses, hbegins, -⟩ := s.passes htext
      refine ⟨[], text, .stop fun position => ?_, htext, Nat.le_refl _, .nil⟩
      obtain ⟨p, hpasses⟩ := hpasses.gap position
      rw [hpasses]
      exact hstop start hbegins p
  | cons x items ih =>
      rw [List.flatMap_cons, List.append_assoc] at htext
      obtain ⟨start, hpasses, hbegins, hshorter⟩ := s.passes htext
      obtain ⟨hne, hread⟩ := hitem x List.mem_cons_self
      have hnext : M (items.flatMap toks ++ ts) :=
        next_of_items hend fun y hy => hmay y (List.mem_cons_of_mem x hy)
      obtain ⟨group, mid, hparses, hfollows, hlength, hgroup⟩ :=
        hread _ hnext start hbegins
      obtain ⟨groups, rest, hrounds, hfollows', hlength', hgroups⟩ :=
        ih (fun y hy => hmay y (List.mem_cons_of_mem x hy))
          (fun y hy => hitem y (List.mem_cons_of_mem x hy)) hfollows
      have hpos := List.length_pos_of_ne_nil hne
      rw [List.length_append] at hlength
      refine ⟨group :: groups, rest, ?_, hfollows', ?_, .cons hgroup hgroups⟩
      · exact .round hpasses.gap hparses (by omega) hrounds
      · rw [List.flatMap_cons, List.length_append]
        omega

/-- **A repetition reads its items** one after another, when each item reads before
whatever may follow it, the first token of an item may follow one, and the tokens after
the last are rejected. -/
theorem Reads.star (hstop : s.Rejects e ts) (hend : M ts)
    (hmay : ∀ x ∈ items, ∀ ts', M (toks x ++ ts'))
    (hitem : ∀ x ∈ items, toks x ≠ [] ∧
      ∀ ts', M ts' → s.Reads e (toks x ++ ts') ts' (Item x)) :
    s.Reads (.star e) (items.flatMap toks ++ ts) ts fun pairs =>
      ∃ groups, pairs = List.flatten groups ∧ List.Forall₂ Item items groups := by
  intro text htext
  cases items with
  | nil =>
      exact ⟨[], text, .star_nil (hstop text htext), s.follows_of_begins htext, Nat.le_refl _,
        [], rfl, .nil⟩
  | cons x items =>
      rw [List.flatMap_cons, List.append_assoc] at htext
      have hnext : M (items.flatMap toks ++ ts) :=
        next_of_items hend fun y hy => hmay y (List.mem_cons_of_mem x hy)
      obtain ⟨group, mid, hparses, hfollows, hlength, hgroup⟩ :=
        (hitem x List.mem_cons_self).2 _ hnext text htext
      obtain ⟨groups, rest, hrounds, hfollows', hlength', hgroups⟩ :=
        Reads.rounds hstop hend (fun y hy => hmay y (List.mem_cons_of_mem x hy))
          (fun y hy => hitem y (List.mem_cons_of_mem x hy)) hfollows
      refine ⟨_, rest, hparses.star_cons hrounds, hfollows', ?_, group :: groups, rfl,
        .cons hgroup hgroups⟩
      rw [List.length_append] at hlength
      rw [List.flatMap_cons, List.length_append, List.length_append]
      omega

end Star

end Scan

end Peg

end Foundations
