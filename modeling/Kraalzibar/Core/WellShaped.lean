import Kraalzibar.Core.RoundTrip
import Kraalzibar.Foundations.PegDerivations

/-!
# What an accepted text says

The converse of reading a spelled schema.  A text that `parse_schema` accepts is the
schema it returns, written out: the tokens of the text are those of the schema's
definitions in their order, with white space and comments around them, and the schema
is one that can be written.

The operands of a permission stand between its tokens in their order, with the same
operator between every two of them, because `RewriteRule.tokens` puts them so.

* `Blank`, `skips_trivia` — what is passed over between the tokens;
* `derives_permissionExpr`, `derives_relationDef`, `derives_definition` — what the walk
  makes of the pairs of a derivation;
* `parseSchema_wellShaped` — the schema of an accepted text.
-/

namespace Kraalzibar

open Foundations Peg

/-! ## What stands between the tokens -/

/-- White space, and comments up to their newline or the end of the text. -/
inductive Blank : List Char → Prop
  | nil : Blank []
  | space {c : Char} {rest : List Char} (hc : c ∈ [' ', '\t', '\n', '\r'])
      (h : Blank rest) : Blank (c :: rest)
  | comment {body rest : List Char} (hbody : ∀ d ∈ body, d ∉ ['\n', '\r'])
      (h : Blank rest) : Blank ('/' :: '/' :: (body ++ rest))

theorem Blank.append {text text' : List Char} (h : Blank text) (h' : Blank text') :
    Blank (text ++ text') := by
  induction h with
  | nil => exact h'
  | space hc _ ih => exact .space hc ih
  | comment hbody _ ih =>
      rw [List.cons_append, List.cons_append, List.append_assoc]
      exact .comment hbody ih

theorem takes_whitespace : Takes id Grammar.whitespace Blank := by
  refine (takes_matches Grammar.whitespace).mono ?_
  rintro text (rfl | rfl | rfl | rfl | rfl)
  · exact .space (by decide) .nil
  · exact .space (by decide) .nil
  · exact .space (by decide) .nil
  · exact .space (by decide) (.space (by decide) .nil)
  · exact .space (by decide) .nil

theorem takes_comment : Takes id Grammar.comment Blank := by
  have hchar : Takes id
      (.seq (.not Grammar.newline) (.satisfy fun _ => true) : Expr Rule)
      fun text => ∃ c, text = [c] ∧ c ∉ ['\n', '\r'] := by
    intro input pairs input' h
    obtain ⟨first, mid, second, hnot, hany, rfl⟩ := run_seq_of_some h
    obtain ⟨hnone, rfl, rfl⟩ := run_not_of_some hnot
    obtain ⟨rfl, c, -, hrest⟩ := run_satisfy_of_some hany
    refine ⟨rfl, [c], hrest, c, rfl, fun hc => ?_⟩
    obtain ⟨rest, hnewline, -⟩ := @parses_newline input'.rest true c hc
    obtain ⟨position, hrun⟩ := hnewline input.position
    have hinput : input = ⟨input.position, c :: input'.rest⟩ :=
      congrArg (Input.mk input.position) hrest
    rw [← hinput, hnone] at hrun
    cases hrun
  have hslashes : Takes id (.str "//" : Expr Rule) fun text => text = "//".toList :=
    takes_matches _
  have hcomment := hslashes.seq hchar.star
  intro input pairs input' h
  refine hcomment.mono ?_ input pairs input' h
  rintro _ ⟨_, _, rfl, rfl, parts, rfl, hparts⟩
  have hbody : ∀ d ∈ parts.flatten, d ∉ ['\n', '\r'] := by
    intro d hd
    obtain ⟨part, hpart, hd⟩ := List.mem_flatten.mp hd
    obtain ⟨c, rfl, hc⟩ := hparts part hpart
    rwa [List.mem_singleton.mp hd]
  have hblank := Blank.comment hbody .nil
  rwa [List.append_nil] at hblank

theorem skips_trivia : Skips Grammar.trivia.skip Blank :=
  Trivia.skips .nil Blank.append takes_whitespace takes_comment

/-! ## The schema in its text -/

/-- The tokens are those of the definition, with its relations and permissions in the
order of the text. -/
def TypeDefinition.WrittenAs (td : TypeDefinition) (ts : List String) : Prop :=
  ∃ items : List (RelationDef ⊕ PermissionDef),
    items.filterMap Sum.getLeft? = td.relations ∧
    items.filterMap Sum.getRight? = td.permissions ∧
    ts = ["definition", td.name, "\x7b"] ++ (items.flatMap Parser.itemTokens ++ ["\x7d"])

/-- The text is that of the definitions in their order, with white space and comments
around the tokens. -/
def Schema.WrittenAs (schema : Schema) (text : String) : Prop :=
  ∃ parts, List.Forall₂ TypeDefinition.WrittenAs schema.types parts ∧
    Spaced Blank parts.flatten text.toList

/-! ## What the walk makes of a derivation -/

namespace Parser

/-- The pairs are one pair of the rule, and of all that the walk can make of it `Q`
holds, with the tokens. -/
def Yields {α : Type} (rule : Rule) (walk : Pair Rule → Except ParseError α)
    (Q : α → List String → Prop) (ts : List String) (pairs : List (Pair Rule)) : Prop :=
  ∃ pair, pairs = [pair] ∧ pair.rule = rule ∧ ∀ x, walk pair = .ok x → Q x ts

section

variable {ts : List String} {pairs : List (Pair Rule)}

theorem derives_identifier (h : Grammar.identifier.Derives ts pairs) :
    ∃ name, IsIdentifier name ∧ ts = [name] ∧ pairs = [.mk .identifier name []] := by
  obtain ⟨name, ⟨_, _, hname, ⟨c, hc, rfl⟩, parts, rfl, hparts⟩, rfl, rfl⟩ := h
  refine ⟨name, ⟨c, parts.flatten, hname, hc, fun d hd => ?_⟩, rfl, rfl⟩
  obtain ⟨part, hpart, hd⟩ := List.mem_flatten.mp hd
  rcases hparts part hpart with ⟨c', hc', rfl⟩ | rfl
  · rw [List.mem_singleton.mp hd]
    exact Or.inl hc'
  · exact Or.inr (List.mem_singleton.mp hd)

theorem derives_subjectTypeRef (h : Grammar.subjectTypeRef.Derives ts pairs) :
    Yields .subjectTypeRef parseSubjectTypeRef
      (fun ref ts => ref.Written ∧ ts = ref.tokens) ts pairs := by
  obtain ⟨text, _, rfl, _, _, _, _, rfl, rfl, hfirst, hopt⟩ := h
  obtain ⟨typeName, hname, rfl, rfl⟩ := derives_identifier hfirst
  refine ⟨_, rfl, rfl, fun ref href => ?_⟩
  rcases hopt with ⟨rfl, rfl⟩ | ⟨_, _, _, _, rfl, rfl, ⟨rfl, rfl⟩, hsecond⟩
  · obtain rfl := Except.ok.inj href
    exact ⟨⟨hname, nofun⟩, rfl⟩
  · obtain ⟨relation, hrelation, rfl, rfl⟩ := derives_identifier hsecond
    obtain rfl := Except.ok.inj href
    exact ⟨⟨hname, fun name h => Option.some.inj h ▸ hrelation⟩, rfl⟩

/-- The subject types after the first, each with its separator. -/
theorem derives_subjectTypes {parts : List (List String × List (Pair Rule))}
    (hparts : ∀ part ∈ parts,
      (Expr.seq (.str "|") Grammar.subjectTypeRef).Derives part.1 part.2)
    {refs : List SubjectTypeRef}
    (h : (parts.flatMap Prod.snd).mapM parseSubjectTypeRef = .ok refs) :
    (∀ ref ∈ refs, ref.Written) ∧
      parts.flatMap Prod.fst = refs.flatMap fun ref => "|" :: ref.tokens := by
  induction parts generalizing refs with
  | nil =>
      obtain rfl := Except.ok.inj h
      exact ⟨nofun, rfl⟩
  | cons part parts ih =>
      obtain ⟨ts, pairs⟩ := part
      rw [List.forall_mem_cons] at hparts
      obtain ⟨⟨_, _, _, _, rfl, rfl, ⟨rfl, rfl⟩, hpart⟩, hothers⟩ := hparts
      obtain ⟨pair, rfl, -, hwalk⟩ := derives_subjectTypeRef hpart
      rw [List.flatMap_cons, List.nil_append, List.singleton_append, List.mapM_cons] at h
      obtain ⟨ref, href, h⟩ := bind_eq_ok.mp h
      obtain ⟨others, hrest, h⟩ := bind_eq_ok.mp h
      obtain rfl := Except.ok.inj h
      obtain ⟨hwritten, rfl⟩ := hwalk ref href
      obtain ⟨hall, htokens⟩ := ih hothers hrest
      refine ⟨List.forall_mem_cons.mpr ⟨hwritten, hall⟩, ?_⟩
      rw [List.flatMap_cons, List.flatMap_cons, htokens]
      rfl

theorem derives_subjectTypeList (h : Grammar.subjectTypeList.Derives ts pairs) :
    Yields .subjectTypeList (fun pair => pair.inner.mapM parseSubjectTypeRef)
      (fun refs ts => refs ≠ [] ∧ (∀ ref ∈ refs, ref.Written) ∧
        ts = joinTokens "|" (refs.map SubjectTypeRef.tokens)) ts pairs := by
  obtain ⟨text, _, rfl, _, _, _, _, rfl, rfl, hhead, parts, rfl, rfl, hparts⟩ := h
  obtain ⟨pair, rfl, -, hwalk⟩ := derives_subjectTypeRef hhead
  refine ⟨_, rfl, rfl, fun refs h => ?_⟩
  have h : (pair :: parts.flatMap Prod.snd).mapM parseSubjectTypeRef = .ok refs := h
  rw [List.mapM_cons] at h
  obtain ⟨first, hfirst, h⟩ := bind_eq_ok.mp h
  obtain ⟨others, hothers, h⟩ := bind_eq_ok.mp h
  obtain rfl := Except.ok.inj h
  obtain ⟨hwritten, rfl⟩ := hwalk first hfirst
  obtain ⟨hall, htokens⟩ := derives_subjectTypes hparts hothers
  refine ⟨List.cons_ne_nil _ _, List.forall_mem_cons.mpr ⟨hwritten, hall⟩, ?_⟩
  rw [htokens, List.map_cons, joinTokens, List.flatMap_map]

/-- **A relation has a subject type**, and the names of its text. -/
theorem derives_relationDef (h : Grammar.relationDef.Derives ts pairs) :
    Yields .relationDef parseRelationDef
      (fun rel ts => rel.Written ∧ ts = rel.tokens) ts pairs := by
  obtain ⟨text, _, rfl, _, _, _, _, rfl, rfl, ⟨rfl, rfl⟩, _, _, _, _, rfl, rfl, hident,
    _, _, _, _, rfl, rfl, ⟨rfl, rfl⟩, hlist⟩ := h
  obtain ⟨name, hname, rfl, rfl⟩ := derives_identifier hident
  obtain ⟨list, rfl, -, hwalk⟩ := derives_subjectTypeList hlist
  refine ⟨_, rfl, rfl, fun rel h => ?_⟩
  have h : (do
      let subjectTypes ← list.inner.mapM parseSubjectTypeRef
      return { name, subjectTypes } : Except ParseError RelationDef) = .ok rel := h
  obtain ⟨refs, hrefs, h⟩ := bind_eq_ok.mp h
  obtain rfl := Except.ok.inj h
  obtain ⟨hne, hwritten, rfl⟩ := hwalk refs hrefs
  exact ⟨⟨hname, hne, hwritten⟩, rfl⟩

/-! ### Permissions -/

theorem derives_permissionTerm (h : Grammar.permissionTerm.Derives ts pairs) :
    ∃ rule : RewriteRule, rule.WrittenTerm ∧ ts = rule.termTokens ∧
      Walks .permissionTerm parsePermissionTerm rule pairs := by
  obtain ⟨text, _, rfl, harrow | hident⟩ := h
  · obtain ⟨_, _, rfl, _, _, _, _, rfl, rfl, hfirst, _, _, _, _, rfl, rfl, ⟨rfl, rfl⟩,
      hsecond⟩ := harrow
    obtain ⟨rel, hrel, rfl, rfl⟩ := derives_identifier hfirst
    obtain ⟨perm, hperm, rfl, rfl⟩ := derives_identifier hsecond
    exact ⟨.arrow rel perm, .arrow hrel hperm, rfl, _, rfl, rfl, rfl⟩
  · obtain ⟨name, hname, rfl, rfl⟩ := derives_identifier hident
    exact ⟨.this name, .this hname, rfl, _, rfl, rfl, rfl⟩

theorem derives_permissionOp (h : Grammar.permissionOp.Derives ts pairs) :
    ∃ op token text, Operator op token ∧ ts = [token] ∧ pairs = [.mk op text []] := by
  rcases h with ⟨text, _, rfl, rfl, rfl⟩ | ⟨text, _, rfl, rfl, rfl⟩ |
    ⟨text, _, rfl, rfl, rfl⟩
  · exact ⟨_, _, text, .union, rfl, rfl⟩
  · exact ⟨_, _, text, .intersection, rfl, rfl⟩
  · exact ⟨_, _, text, .exclusion, rfl, rfl⟩

/-- The operators and the terms after them, as the loop collects them. -/
theorem derives_operands {parts : List (List String × List (Pair Rule))}
    (hparts : ∀ part ∈ parts,
      (Expr.seq Grammar.permissionOp Grammar.permissionTerm).Derives part.1 part.2) :
    ∃ operands : List ((Rule × String) × RewriteRule),
      (∀ operand ∈ operands, Operator operand.1.1 operand.1.2 ∧ operand.2.WrittenTerm) ∧
      parts.flatMap Prod.fst =
        operands.flatMap (fun operand => operand.1.2 :: operand.2.termTokens) ∧
      operandLoop (parts.flatMap Prod.snd) =
        .ok (operands.map fun operand => (operand.1.1, operand.2)) := by
  induction parts with
  | nil => exact ⟨[], nofun, rfl, rfl⟩
  | cons part parts ih =>
      obtain ⟨ts, pairs⟩ := part
      rw [List.forall_mem_cons] at hparts
      obtain ⟨⟨_, _, _, _, rfl, rfl, hfirst, hsecond⟩, hothers⟩ := hparts
      obtain ⟨op, token, text, hop, rfl, rfl⟩ := derives_permissionOp hfirst
      obtain ⟨term, hterm, rfl, pair, rfl, -, hpair⟩ := derives_permissionTerm hsecond
      obtain ⟨operands, hall, htokens, hloop⟩ := ih hothers
      refine ⟨((op, token), term) :: operands, List.forall_mem_cons.mpr ⟨⟨hop, hterm⟩, hall⟩,
        ?_, ?_⟩
      · rw [List.flatMap_cons, List.flatMap_cons, htokens]
        rfl
      · rw [List.flatMap_cons]
        simp only [List.cons_append, List.nil_append, operandLoop, hpair, hloop]
        rfl

/-- What the walk accepts has one operator throughout. -/
theorem parsePermissionExpr_same {text : String} {head : Pair Rule}
    {rest : List (Pair Rule)} {op : Rule} {first second rule : RewriteRule}
    {others : List (Rule × RewriteRule)} (hhead : parsePermissionTerm head = .ok first)
    (hrest : operandLoop rest = .ok ((op, second) :: others))
    (h : parsePermissionExpr (.mk .permissionExpr text (head :: rest)) = .ok rule) :
    ∀ operand ∈ others, operand.1 = op := by
  simp only [parsePermissionExpr, Pair.inner, next, ok_bind, hhead, hrest] at h
  split at h
  · cases h
  · rename_i hsame
    intro operand hoperand
    by_contra hne
    exact hsame (List.any_eq_true.mpr ⟨operand, hoperand, bne_iff_ne.mpr hne⟩)

theorem Operator.token_unique {op : Rule} {token token' : String} (h : Operator op token)
    (h' : Operator op token') : token = token' := by
  cases h <;> cases h' <;> rfl

/-- The rule of an expression with one operator is written as its operands are. -/
theorem parsePermissionExpr_written {text token : String} {head : Pair Rule}
    {rest : List (Pair Rule)} {op : Rule} {first second rule : RewriteRule}
    {others : List RewriteRule} (hop : Operator op token)
    (hterms : ∀ c ∈ first :: second :: others, c.WrittenTerm)
    (hhead : parsePermissionTerm head = .ok first)
    (hrest : operandLoop rest = .ok ((second :: others).map fun term => (op, term)))
    (h : parsePermissionExpr (.mk .permissionExpr text (head :: rest)) = .ok rule) :
    rule.Written ∧
      joinTokens token ((first :: second :: others).map RewriteRule.termTokens) =
        rule.tokens := by
  rw [parsePermissionExpr_operands hhead hrest] at h
  cases hop with
  | union =>
      obtain rfl := Except.ok.inj h
      exact ⟨.union (by simp) hterms, rfl⟩
  | intersection =>
      obtain rfl := Except.ok.inj h
      exact ⟨.intersection (by simp) hterms, rfl⟩
  | exclusion =>
      simp only at h
      split at h
      · rename_i hempty
        obtain rfl := List.isEmpty_iff.mp hempty
        obtain rfl := Except.ok.inj h
        rw [List.forall_mem_cons, List.forall_mem_singleton] at hterms
        exact ⟨.exclusion hterms.1 hterms.2, rfl⟩
      · cases h

/-- **The operands of an expression** stand in its text in their order, with one operator
between every two of them. -/
theorem derives_permissionExpr (h : Grammar.permissionExpr.Derives ts pairs) :
    Yields .permissionExpr parsePermissionExpr
      (fun rule ts => rule.Written ∧ ts = rule.tokens) ts pairs := by
  obtain ⟨text, _, rfl, _, _, _, _, rfl, rfl, hhead, parts, rfl, rfl, hparts⟩ := h
  obtain ⟨first, hfirst, rfl, head, rfl, -, hwalk⟩ := derives_permissionTerm hhead
  obtain ⟨operands, hoperands, htokens, hloop⟩ := derives_operands hparts
  refine ⟨_, rfl, rfl, fun rule h => ?_⟩
  rw [htokens]
  cases operands with
  | nil =>
      obtain rfl := Except.ok.inj ((parsePermissionExpr_term hwalk hloop).symm.trans h)
      refine ⟨.term hfirst, ?_⟩
      rw [List.flatMap_nil, List.append_nil]
      cases hfirst <;> rfl
  | cons operand others =>
      obtain ⟨⟨op, token⟩, second⟩ := operand
      rw [List.forall_mem_cons] at hoperands
      obtain ⟨⟨hop, hsecond⟩, hothers⟩ := hoperands
      have hop : Operator op token := hop
      have hsecond : second.WrittenTerm := hsecond
      have hsame : ∀ operand ∈ others, operand.1.1 = op := by
        intro operand hoperand
        exact parsePermissionExpr_same hwalk hloop h _
          (List.mem_map_of_mem (f := fun operand => (operand.1.1, operand.2)) hoperand)
      have hrest : operandLoop (parts.flatMap Prod.snd) =
          .ok ((second :: others.map Prod.snd).map fun term => (op, term)) := by
        rw [hloop, List.map_cons, List.map_cons, List.map_map]
        congr 2
        exact List.map_congr_left fun operand hoperand => by rw [hsame operand hoperand]; rfl
      have hspelled : (((op, token), second) :: others).flatMap
          (fun operand => operand.1.2 :: operand.2.termTokens) =
            ((second :: others.map Prod.snd).map RewriteRule.termTokens).flatMap
              fun part => token :: part := by
        rw [List.flatMap_map, List.flatMap_cons, List.flatMap_cons, List.flatMap_map]
        congr 1
        refine List.flatMap_congr fun operand hoperand => ?_
        have hoperator : Operator op operand.1.2 := by
          rw [← hsame operand hoperand]
          exact (hothers operand hoperand).1
        rw [hop.token_unique hoperator]
      have hterms : ∀ c ∈ first :: second :: others.map Prod.snd, c.WrittenTerm := by
        simp only [List.forall_mem_cons, List.forall_mem_map]
        exact ⟨hfirst, hsecond, fun operand hoperand => (hothers operand hoperand).2⟩
      rw [hspelled]
      exact parsePermissionExpr_written hop hterms hwalk hrest h

theorem derives_permissionDef (h : Grammar.permissionDef.Derives ts pairs) :
    Yields .permissionDef parsePermissionDef
      (fun perm ts => perm.Written ∧ ts = perm.tokens) ts pairs := by
  obtain ⟨text, _, rfl, _, _, _, _, rfl, rfl, ⟨rfl, rfl⟩, _, _, _, _, rfl, rfl, hident,
    _, _, _, _, rfl, rfl, ⟨rfl, rfl⟩, hexpr⟩ := h
  obtain ⟨name, hname, rfl, rfl⟩ := derives_identifier hident
  obtain ⟨expr, rfl, -, hwalk⟩ := derives_permissionExpr hexpr
  refine ⟨_, rfl, rfl, fun perm h => ?_⟩
  have h : (do
      let rule ← parsePermissionExpr expr
      return { name, rule } : Except ParseError PermissionDef) = .ok perm := h
  obtain ⟨rule, hrule, h⟩ := bind_eq_ok.mp h
  obtain rfl := Except.ok.inj h
  obtain ⟨hwritten, rfl⟩ := hwalk rule hrule
  exact ⟨⟨hname, hwritten⟩, rfl⟩

/-! ### Definitions -/

/-- The items of a body: what the loop pushes, in the order of the text. -/
theorem derives_items {typeName : String} {parts : List (List String × List (Pair Rule))}
    (hparts : ∀ part ∈ parts,
      (Expr.choice Grammar.relationDef Grammar.permissionDef).Derives part.1 part.2)
    {relations : List RelationDef} {permissions : List PermissionDef}
    {result : List RelationDef × List PermissionDef}
    (h : bodyLoop typeName (parts.flatMap Prod.snd) relations permissions = .ok result) :
    ∃ items : List (RelationDef ⊕ PermissionDef),
      (∀ item ∈ items, Sum.elim RelationDef.Written PermissionDef.Written item) ∧
      parts.flatMap Prod.fst = items.flatMap itemTokens ∧
      result = (relations ++ items.filterMap Sum.getLeft?,
        permissions ++ items.filterMap Sum.getRight?) := by
  induction parts generalizing relations permissions with
  | nil =>
      obtain rfl := Except.ok.inj h
      exact ⟨[], nofun, rfl, by simp⟩
  | cons part parts ih =>
      obtain ⟨ts, pairs⟩ := part
      rw [List.forall_mem_cons] at hparts
      obtain ⟨hrel | hperm, hothers⟩ := hparts
      · obtain ⟨pair, rfl, hrule, hwalk⟩ := derives_relationDef hrel
        rw [List.flatMap_cons, List.singleton_append, bodyLoop, hrule] at h
        obtain ⟨rel, hpair, h⟩ := bind_eq_ok.mp h
        split at h
        · cases h
        · obtain ⟨hwritten, rfl⟩ := hwalk rel hpair
          obtain ⟨items, hitems, htokens, rfl⟩ := ih hothers h
          refine ⟨.inl rel :: items, List.forall_mem_cons.mpr ⟨hwritten, hitems⟩, ?_, ?_⟩
          · rw [List.flatMap_cons, List.flatMap_cons, htokens]
            rfl
          · simp [List.filterMap_cons]
      · obtain ⟨pair, rfl, hrule, hwalk⟩ := derives_permissionDef hperm
        rw [List.flatMap_cons, List.singleton_append, bodyLoop, hrule] at h
        obtain ⟨perm, hpair, h⟩ := bind_eq_ok.mp h
        split at h
        · cases h
        · obtain ⟨hwritten, rfl⟩ := hwalk perm hpair
          obtain ⟨items, hitems, htokens, rfl⟩ := ih hothers h
          refine ⟨.inr perm :: items, List.forall_mem_cons.mpr ⟨hwritten, hitems⟩, ?_, ?_⟩
          · rw [List.flatMap_cons, List.flatMap_cons, htokens]
            rfl
          · simp [List.filterMap_cons]

theorem derives_definition (h : Grammar.definition.Derives ts pairs) :
    Yields .definition parseDefinition
      (fun td ts => td.Written ∧ td.WrittenAs ts) ts pairs := by
  obtain ⟨text, _, rfl, _, _, _, _, rfl, rfl, ⟨rfl, rfl⟩, _, _, _, _, rfl, rfl, hident,
    _, _, _, _, rfl, rfl, ⟨rfl, rfl⟩, _, _, _, _, rfl, rfl,
    ⟨bodyText, _, rfl, parts, rfl, rfl, hparts⟩, rfl, rfl⟩ := h
  obtain ⟨name, hname, rfl, rfl⟩ := derives_identifier hident
  refine ⟨_, rfl, rfl, fun td h => ?_⟩
  have h := (parseDefinition_mk text name bodyText (parts.flatMap Prod.snd)).symm.trans h
  obtain ⟨result, hbody, h⟩ := bind_eq_ok.mp h
  obtain ⟨items, hitems, htokens, rfl⟩ := derives_items hparts hbody
  obtain rfl := Except.ok.inj h
  rw [List.nil_append, List.nil_append]
  refine ⟨⟨hname, fun rel hrel => ?_, fun perm hperm => ?_⟩, items, rfl, rfl, ?_⟩
  · obtain ⟨item, hitem, hleft⟩ := List.mem_filterMap.mp hrel
    obtain rfl := Sum.getLeft?_eq_some_iff.mp hleft
    exact hitems _ hitem
  · obtain ⟨item, hitem, hright⟩ := List.mem_filterMap.mp hperm
    obtain rfl := Sum.getRight?_eq_some_iff.mp hright
    exact hitems _ hitem
  · rw [htokens]
    rfl

/-- The definitions of a text, as the loop pushes them. -/
theorem derives_definitions {parts : List (List String × List (Pair Rule))}
    (hparts : ∀ part ∈ parts, Grammar.definition.Derives part.1 part.2)
    {text : String} {types result : List TypeDefinition}
    (h : definitionLoop (parts.flatMap Prod.snd ++ [.mk .EOI text []]) types =
      .ok result) :
    ∃ tds tss, result = types ++ tds ∧ (∀ td ∈ tds, td.Written) ∧
      List.Forall₂ TypeDefinition.WrittenAs tds tss ∧
      parts.flatMap Prod.fst = List.flatten tss := by
  induction parts generalizing types with
  | nil =>
      obtain rfl := Except.ok.inj h
      exact ⟨[], [], (List.append_nil _).symm, nofun, .nil, rfl⟩
  | cons part parts ih =>
      obtain ⟨ts, pairs⟩ := part
      rw [List.forall_mem_cons] at hparts
      obtain ⟨hdef, hothers⟩ := hparts
      obtain ⟨pair, rfl, hrule, hwalk⟩ := derives_definition hdef
      rw [List.flatMap_cons, List.singleton_append, List.cons_append, definitionLoop,
        if_pos hrule] at h
      obtain ⟨td, hpair, h⟩ := bind_eq_ok.mp h
      split at h
      · cases h
      · obtain ⟨hwritten, hts⟩ := hwalk td hpair
        obtain ⟨tds, tss, rfl, hall, htss, htokens⟩ := ih hothers h
        refine ⟨td :: tds, ts :: tss, ?_, List.forall_mem_cons.mpr ⟨hwritten, hall⟩,
          .cons hts htss, ?_⟩
        · rw [List.append_assoc, List.singleton_append]
        · rw [List.flatMap_cons, htokens, List.flatten_cons]

end

end Parser

/-! ## The whole text -/

/-- What the grammar matches is a text of definitions, up to its end. -/
theorem derives_of_parse {text : String} {pairs : List (Pair Rule)}
    (h : SchemaParser.parse text = some pairs) :
    ∃ (parts : List (List String × List (Pair Rule))) (schemaText endText : String),
      (∀ part ∈ parts, Grammar.definition.Derives part.1 part.2) ∧
      pairs = [.mk .schema schemaText
        (parts.flatMap Prod.snd ++ [.mk .EOI endText []])] ∧
      Spaced Blank (parts.flatMap Prod.fst) text.toList := by
  obtain ⟨⟨pairs', input'⟩, hrun, rfl⟩ := Option.map_eq_some_iff.mp h
  obtain ⟨inner, hinner, rfl⟩ := run_normal_of_some hrun
  obtain ⟨first, mid, second, hstart, hrest, rfl⟩ := run_seq_of_some hinner
  obtain ⟨rfl, rfl⟩ := run_startOfInput_of_some hstart
  obtain ⟨definitions, mid, eoi, hdefinitions, heoi, rfl⟩ := run_seq_of_some hrest
  obtain ⟨endPairs, hend, rfl⟩ := run_normal_of_some heoi
  obtain ⟨rfl, rfl, hempty⟩ := run_endOfInput_of_some hend
  have hparsed := Parsed.of_skip skips_trivia
    (derives_of_run skips_trivia (.star Grammar.definition) _ _ _ hdefinitions)
  obtain ⟨ts, consumed, htext, hspaced, parts, rfl, rfl, hparts⟩ := hparsed
  obtain ⟨last, hmid, hlast⟩ := skips_trivia.skips mid
  have hnothing : (Grammar.trivia.skip mid).rest = [] := hempty
  refine ⟨parts, _, _, hparts, rfl, ?_⟩
  have htext : text.toList = consumed ++ last := by
    rw [hnothing, List.append_nil] at hmid
    rw [← hmid]
    exact htext
  have hend := hspaced.append skips_trivia (Spaced.done hlast)
  rwa [List.append_nil, ← htext] at hend

/-- **An accepted text is its schema, written out.**  The schema can be written: no name
comes twice, every relation has a subject type, and every rule is a name or an arrow, or
one operator applied to two of them or more, an exclusion to exactly two.  And the text
has its tokens: the definitions in their order, and in every permission the operands in
their order with the one operator of its rule between them. -/
theorem parseSchema_wellShaped (text : String) (schema : Schema)
    (h : parseSchema text = .ok schema) : schema.Written ∧ schema.WrittenAs text := by
  have hunique := parseSchema_namesUnique h
  unfold parseSchema at h
  split at h
  · cases h
  · rename_i pairs hparse
    obtain ⟨types, htypes, h⟩ := bind_eq_ok.mp h
    obtain rfl := Except.ok.inj h
    obtain ⟨parts, schemaText, endText, hparts, rfl, hspaced⟩ := derives_of_parse hparse
    obtain ⟨types', hloop, hlast⟩ := bind_eq_ok.mp htypes
    obtain rfl := Except.ok.inj hlast
    obtain ⟨tds, tss, rfl, hwritten, htss, htokens⟩ := Parser.derives_definitions hparts hloop
    rw [htokens] at hspaced
    exact ⟨⟨hunique, hwritten⟩, tss, htss, hspaced⟩

/-- `definition a { relation r: a permission p = r + r->p + q }`. -/
def unionSchema : Schema where
  types :=
    [{ name := "a"
       relations := [⟨"r", [⟨"a", none⟩]⟩]
       permissions := [⟨"p", .union [.this "r", .arrow "r" "p", .this "q"]⟩] }]

/-- Hardly a space in the text, and a comment inside the expression. -/
theorem parseSchema_wellShaped_union :
    parseSchema "definition a\x7brelation r:a permission p=r+r->p//\n+q\x7d" =
      .ok unionSchema ∧
    unionSchema.Written ∧
    unionSchema.WrittenAs "definition a\x7brelation r:a permission p=r+r->p//\n+q\x7d" := by
  have hparse : parseSchema "definition a\x7brelation r:a permission p=r+r->p//\n+q\x7d" =
      .ok unionSchema := by decide +kernel
  exact ⟨hparse, parseSchema_wellShaped _ _ hparse⟩

end Kraalzibar
