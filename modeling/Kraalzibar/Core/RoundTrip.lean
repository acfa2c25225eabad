import Kraalzibar.Core.Parser
import Kraalzibar.Core.Spelling

/-!
# The schema language denotes its syntax trees

Every schema that can be written has a sequence of tokens, and `parse_schema` reads each
text that spells it as that schema.  Keywords are not reserved and the grammar is
ordered and greedy, so each rule is shown to take its own tokens and to leave the next
ones alone.

* `Schema.Written`, `Schema.tokens` — the schemas that can be written, and how;
* `reads_relationDef`, `reads_permissionDef`, `reads_definition` — what the rules of the
  grammar read, and what the walk makes of the pairs;
* `parseSchema_spelled` — a text that spells a schema is parsed as the schema.
-/

namespace Kraalzibar

open Foundations Peg

/-! ## Schemas that can be written -/

/-- The names are identifiers. -/
structure SubjectTypeRef.Written (ref : SubjectTypeRef) : Prop where
  typeName : IsIdentifier ref.typeName
  relation : ∀ name ∈ ref.relation, IsIdentifier name

structure RelationDef.Written (rel : RelationDef) : Prop where
  name : IsIdentifier rel.name
  nonempty : rel.subjectTypes ≠ []
  subjectTypes : ∀ ref ∈ rel.subjectTypes, ref.Written

/-- A name, or an arrow between names. -/
inductive RewriteRule.WrittenTerm : RewriteRule → Prop
  | this {name : String} (h : IsIdentifier name) : WrittenTerm (.this name)
  | arrow {tuplesetRel computedPerm : String} (hrel : IsIdentifier tuplesetRel)
      (hperm : IsIdentifier computedPerm) : WrittenTerm (.arrow tuplesetRel computedPerm)

/-- One term, or one operator applied to terms. -/
inductive RewriteRule.Written : RewriteRule → Prop
  | term {rule : RewriteRule} (h : rule.WrittenTerm) : Written rule
  | union {children : List RewriteRule} (hlength : 2 ≤ children.length)
      (h : ∀ c ∈ children, c.WrittenTerm) : Written (.union children)
  | intersection {children : List RewriteRule} (hlength : 2 ≤ children.length)
      (h : ∀ c ∈ children, c.WrittenTerm) : Written (.intersection children)
  | exclusion {base excluded : RewriteRule} (hbase : base.WrittenTerm)
      (hexcluded : excluded.WrittenTerm) : Written (.exclusion base excluded)

structure PermissionDef.Written (perm : PermissionDef) : Prop where
  name : IsIdentifier perm.name
  rule : perm.rule.Written

structure TypeDefinition.Written (td : TypeDefinition) : Prop where
  name : IsIdentifier td.name
  relations : ∀ rel ∈ td.relations, rel.Written
  permissions : ∀ perm ∈ td.permissions, perm.Written

structure Schema.Written (schema : Schema) : Prop where
  unique : schema.NamesUnique
  types : ∀ td ∈ schema.types, td.Written

/-! ## Tokens -/

/-- The parts with a separator between every two of them. -/
def joinTokens (separator : String) : List (List String) → List String
  | [] => []
  | first :: others => first ++ others.flatMap fun part => separator :: part

def SubjectTypeRef.tokens (ref : SubjectTypeRef) : List String :=
  match ref.relation with
  | none => [ref.typeName]
  | some name => [ref.typeName, "#", name]

def RelationDef.tokens (rel : RelationDef) : List String :=
  ["relation", rel.name, ":"] ++ joinTokens "|" (rel.subjectTypes.map SubjectTypeRef.tokens)

def RewriteRule.termTokens : RewriteRule → List String
  | .this name => [name]
  | .arrow tuplesetRel computedPerm => [tuplesetRel, "->", computedPerm]
  | _ => []

def RewriteRule.tokens : RewriteRule → List String
  | .union children => joinTokens "+" (children.map termTokens)
  | .intersection children => joinTokens "&" (children.map termTokens)
  | .exclusion base excluded => joinTokens "-" [base.termTokens, excluded.termTokens]
  | rule => rule.termTokens

def PermissionDef.tokens (perm : PermissionDef) : List String :=
  ["permission", perm.name, "="] ++ perm.rule.tokens

/-- The relations come first. -/
def TypeDefinition.tokens (td : TypeDefinition) : List String :=
  ["definition", td.name, "\x7b"] ++
    (td.relations.flatMap RelationDef.tokens ++
      (td.permissions.flatMap PermissionDef.tokens ++ ["\x7d"]))

def Schema.tokens (schema : Schema) : List String :=
  schema.types.flatMap TypeDefinition.tokens

/-! ## What the rules read -/

namespace Parser

/-- The pairs are one pair of the rule, of which the walk makes `x`. -/
def Walks {α : Type} (rule : Rule) (walk : Pair Rule → Except ParseError α) (x : α)
    (pairs : List (Pair Rule)) : Prop :=
  ∃ pair, pairs = [pair] ∧ pair.rule = rule ∧ walk pair = .ok x

/-- The first tokens of what may follow an item of a definition. -/
def afterItem : List (Option String) :=
  [some "relation", some "permission", some "\x7d"]

/-- The first tokens of what may follow a subject type. -/
def afterSubject : List (Option String) :=
  some "|" :: afterItem

/-- The first tokens of what may follow a term. -/
def afterTerm : List (Option String) :=
  some "+" :: some "&" :: some "-" :: afterItem

section

variable {ts : List String}

theorem reads_subjectTypeRef {ref : SubjectTypeRef} (href : ref.Written)
    (hts : ts.head? ∈ afterSubject) :
    spelling.Reads Grammar.subjectTypeRef (ref.tokens ++ ts) ts
      (Walks .subjectTypeRef parseSubjectTypeRef ref) := by
  obtain ⟨typeName, relation⟩ := ref
  cases relation with
  | none =>
      have hnone : spelling.Rejects (.seq (.str "#") Grammar.identifier) ts :=
        .seq_left (rejects_literal (c := '#') rfl hts (by decide))
      refine ((reads_identifier href.typeName).seq (.opt_none hnone)).normal.mono ?_
      rintro _ ⟨text, _, rfl, _, _, rfl, rfl, rfl⟩
      exact ⟨_, rfl, rfl, rfl⟩
  | some name =>
      have hsome := (reads_literal "#").seq (@reads_identifier ts name (href.relation name rfl))
      refine ((reads_identifier href.typeName).seq (.opt_some hsome)).normal.mono ?_
      rintro _ ⟨text, _, rfl, _, _, rfl, rfl, _, _, rfl, rfl, rfl⟩
      exact ⟨_, rfl, rfl, rfl⟩

theorem mapM_walks {α : Type} {rule : Rule} {walk : Pair Rule → Except ParseError α}
    {items : List α} {groups : List (List (Pair Rule))}
    (h : List.Forall₂ (Walks rule walk) items groups) :
    groups.flatten.mapM walk = .ok items := by
  induction h with
  | nil => rfl
  | cons hwalk _ ih =>
      obtain ⟨pair, rfl, -, hpair⟩ := hwalk
      rw [List.flatten_cons, List.singleton_append, List.mapM_cons, hpair, ih]
      rfl

theorem reads_subjectTypeList {refs : List SubjectTypeRef} (hne : refs ≠ [])
    (hrefs : ∀ ref ∈ refs, ref.Written) (hts : ts.head? ∈ afterItem) :
    spelling.Reads Grammar.subjectTypeList
      (joinTokens "|" (refs.map SubjectTypeRef.tokens) ++ ts) ts fun pairs =>
        ∃ text inner, pairs = [.mk .subjectTypeList text inner] ∧
          inner.mapM parseSubjectTypeRef = .ok refs := by
  obtain ⟨first, others, rfl⟩ := List.exists_cons_of_ne_nil hne
  rw [List.forall_mem_cons] at hrefs
  have hothers : spelling.Reads (.star (.seq (.str "|") Grammar.subjectTypeRef))
      (others.flatMap (fun ref => "|" :: ref.tokens) ++ ts) ts fun pairs =>
        ∃ groups, pairs = List.flatten groups ∧
          List.Forall₂ (Walks .subjectTypeRef parseSubjectTypeRef) others groups := by
    refine Scan.Reads.star (M := fun ts => ts.head? ∈ afterSubject) ?_
      (List.mem_cons_of_mem _ hts) (fun _ _ _ => List.mem_cons_self) ?_
    · exact .seq_left (rejects_literal (c := '|') rfl hts (by decide))
    · intro ref href
      refine ⟨List.cons_ne_nil _ _, fun ts' hts' => ?_⟩
      refine ((reads_literal "|").seq (reads_subjectTypeRef (hrefs.2 ref href) hts')).mono ?_
      rintro _ ⟨_, second, rfl, rfl, hsecond⟩
      exact hsecond
  have hnext : (others.flatMap (fun ref => "|" :: ref.tokens) ++ ts).head? ∈
      afterSubject :=
    Scan.next_of_items (M := fun ts => ts.head? ∈ afterSubject) (List.mem_cons_of_mem _ hts)
      fun _ _ _ => List.mem_cons_self
  have htokens : joinTokens "|" ((first :: others).map SubjectTypeRef.tokens) ++ ts =
      first.tokens ++ (others.flatMap (fun ref => "|" :: ref.tokens) ++ ts) := by
    simp [joinTokens, List.flatMap_map]
  rw [htokens]
  refine ((reads_subjectTypeRef hrefs.1 hnext).seq hothers).normal.mono ?_
  rintro _ ⟨text, _, rfl, first', _, rfl, hfirst, groups, rfl, hgroups⟩
  exact ⟨text, _, rfl, mapM_walks (.cons hfirst hgroups)⟩

theorem reads_relationDef {rel : RelationDef} (hrel : rel.Written)
    (hts : ts.head? ∈ afterItem) :
    spelling.Reads Grammar.relationDef (rel.tokens ++ ts) ts
      (Walks .relationDef parseRelationDef rel) := by
  have hlist := reads_subjectTypeList hrel.nonempty hrel.subjectTypes hts
  refine ((reads_literal "relation").seq ((reads_identifier hrel.name).seq
    ((reads_literal ":").seq hlist))).normal.mono ?_
  rintro _ ⟨text, _, rfl, _, _, rfl, rfl, _, _, rfl, rfl, _, _, rfl, rfl, list, inner,
    rfl, hinner⟩
  refine ⟨_, rfl, rfl, ?_⟩
  show (do
    let subjectTypes ← inner.mapM parseSubjectTypeRef
    return { name := rel.name, subjectTypes } : Except ParseError RelationDef) = .ok rel
  rw [hinner]
  rfl

/-! ### Permissions -/

/-- Before what may follow a term, no arrow starts. -/
theorem rejects_arrow_of_afterTerm (hts : ts.head? ∈ afterTerm) :
    spelling.Rejects (.str "->" : Expr Rule) ts := by
  by_cases hminus : ts.head? = some "-"
  · obtain ⟨ts', rfl⟩ := List.head?_eq_some_iff.mp hminus
    exact rejects_arrow
  · have hother : ts.head? ∈ some "+" :: some "&" :: afterItem := by
      have hcases : ∀ t ∈ afterTerm, t = some "-" ∨ t ∈ some "+" :: some "&" :: afterItem := by
        decide
      exact (hcases _ hts).resolve_left hminus
    exact rejects_literal (c := '-') rfl hother (by decide)

theorem reads_permissionTerm {rule : RewriteRule} (hrule : rule.WrittenTerm)
    (hts : ts.head? ∈ afterTerm) :
    spelling.Reads Grammar.permissionTerm (rule.termTokens ++ ts) ts
      (Walks .permissionTerm parsePermissionTerm rule) := by
  cases hrule with
  | @this name hname =>
      have hnoArrow : spelling.Rejects Grammar.arrowExpr (name :: ts) :=
        .normal (.seq_right (reads_identifier hname)
          (.seq_left (rejects_arrow_of_afterTerm hts)))
      refine ((reads_identifier hname).choice_right hnoArrow).normal.mono ?_
      rintro _ ⟨text, _, rfl, rfl⟩
      exact ⟨_, rfl, rfl, rfl⟩
  | @arrow tuplesetRel computedPerm hrel hperm =>
      have harrow := (reads_identifier hrel).seq ((reads_literal "->").seq
        (@reads_identifier ts computedPerm hperm))
      refine (Scan.Reads.choice_left harrow.normal).normal.mono ?_
      rintro _ ⟨text, _, rfl, _, _, rfl, _, _, rfl, rfl, _, _, rfl, rfl, rfl⟩
      exact ⟨_, rfl, rfl, rfl⟩

/-- The operators, as rules of the grammar and as tokens. -/
inductive Operator : Rule → String → Prop
  | union : Operator .unionOp "+"
  | intersection : Operator .intersectionOp "&"
  | exclusion : Operator .exclusionOp "-"

theorem Operator.reads {op : Rule} {token : String} (h : Operator op token) :
    spelling.Reads Grammar.permissionOp (token :: ts) ts fun pairs =>
      ∃ text, pairs = [.mk op text []] := by
  have hop : ∀ {op : Rule} {token : String},
      spelling.Reads (.rule op .normal (.str token)) (token :: ts) ts fun pairs =>
        ∃ text, pairs = [.mk op text []] := by
    intro op token
    refine (reads_literal token).normal.mono ?_
    rintro _ ⟨text, _, rfl, rfl⟩
    exact ⟨text, rfl⟩
  cases h with
  | union => exact .silent hop.choice_left
  | intersection =>
      have hhead : ("&" :: ts).head? ∈ [some "&"] := .head _
      have hplus : spelling.Rejects Grammar.unionOp ("&" :: ts) :=
        .normal (rejects_literal (c := '+') rfl hhead (by decide))
      exact .silent (.choice_right hplus hop.choice_left)
  | exclusion =>
      have hhead : ("-" :: ts).head? ∈ [some "-"] := .head _
      have hplus : spelling.Rejects Grammar.unionOp ("-" :: ts) :=
        .normal (rejects_literal (c := '+') rfl hhead (by decide))
      have hand : spelling.Rejects Grammar.intersectionOp ("-" :: ts) :=
        .normal (rejects_literal (c := '&') rfl hhead (by decide))
      exact .silent (.choice_right hplus (.choice_right hand hop))

/-- The pairs of an operator and a term. -/
def Operand (op : Rule) (term : RewriteRule) (pairs : List (Pair Rule)) : Prop :=
  ∃ text pair, pairs = [.mk op text [], pair] ∧ parsePermissionTerm pair = .ok term

theorem operandLoop_operands {op : Rule} {terms : List RewriteRule}
    {groups : List (List (Pair Rule))} (h : List.Forall₂ (Operand op) terms groups) :
    operandLoop groups.flatten = .ok (terms.map fun term => (op, term)) := by
  induction h with
  | nil => rfl
  | cons hoperand _ ih =>
      obtain ⟨text, pair, rfl, hpair⟩ := hoperand
      rw [List.flatten_cons]
      simp only [List.cons_append, List.nil_append, operandLoop, hpair, ih]
      rfl

/-- An expression with one operator, or with none when there is one term only. -/
theorem reads_permissionExpr {op : Rule} {token : String} (hop : Operator op token)
    {first : RewriteRule} {others : List RewriteRule} (hfirst : first.WrittenTerm)
    (hothers : ∀ term ∈ others, term.WrittenTerm) (hts : ts.head? ∈ afterItem) :
    spelling.Reads Grammar.permissionExpr
      (joinTokens token ((first :: others).map RewriteRule.termTokens) ++ ts) ts fun pairs =>
        ∃ text head rest, pairs = [.mk .permissionExpr text (head :: rest)] ∧
          parsePermissionTerm head = .ok first ∧
          operandLoop rest = .ok (others.map fun term => (op, term)) := by
  have hafter : some token ∈ afterTerm ∧ ts.head? ∈ afterTerm := by
    refine ⟨?_, .tail _ (.tail _ (.tail _ hts))⟩
    cases hop <;> decide
  have hrest : spelling.Reads (.star (.seq Grammar.permissionOp Grammar.permissionTerm))
      (others.flatMap (fun term => token :: term.termTokens) ++ ts) ts fun pairs =>
        ∃ groups, pairs = List.flatten groups ∧ List.Forall₂ (Operand op) others groups := by
    refine Scan.Reads.star (M := fun ts => ts.head? ∈ afterTerm) ?_ hafter.2
      (fun _ _ _ => hafter.1) ?_
    · exact .seq_left (.silent (.choice
        (.normal (rejects_literal (c := '+') rfl hts (by decide)))
        (.choice (.normal (rejects_literal (c := '&') rfl hts (by decide)))
          (.normal (rejects_literal (c := '-') rfl hts (by decide))))))
    · intro term hterm
      refine ⟨List.cons_ne_nil _ _, fun ts' hts' => ?_⟩
      refine (hop.reads.seq (reads_permissionTerm (hothers term hterm) hts')).mono ?_
      rintro _ ⟨_, _, rfl, ⟨text, rfl⟩, pair, rfl, -, hpair⟩
      exact ⟨text, pair, rfl, hpair⟩
  have hnext : (others.flatMap (fun term => token :: term.termTokens) ++ ts).head? ∈
      afterTerm :=
    Scan.next_of_items (M := fun ts => ts.head? ∈ afterTerm) hafter.2 fun _ _ _ => hafter.1
  have htokens : joinTokens token ((first :: others).map RewriteRule.termTokens) ++ ts =
      first.termTokens ++
        (others.flatMap (fun term => token :: term.termTokens) ++ ts) := by
    simp [joinTokens, List.flatMap_map]
  rw [htokens]
  refine ((reads_permissionTerm hfirst hnext).seq hrest).normal.mono ?_
  rintro _ ⟨text, _, rfl, _, _, rfl, ⟨head, rfl, -, hhead⟩, groups, rfl, hgroups⟩
  exact ⟨text, head, _, rfl, hhead, operandLoop_operands hgroups⟩

/-- The walk of an expression of one term. -/
theorem parsePermissionExpr_term {text : String} {head : Pair Rule} {rest : List (Pair Rule)}
    {first : RewriteRule} (hhead : parsePermissionTerm head = .ok first)
    (hrest : operandLoop rest = .ok []) :
    parsePermissionExpr (.mk .permissionExpr text (head :: rest)) = .ok first := by
  simp only [parsePermissionExpr, Pair.inner, next, ok_bind, hhead, hrest]
  rfl

/-- The walk of an expression of more terms, with one operator. -/
theorem parsePermissionExpr_operands {text : String} {head : Pair Rule}
    {rest : List (Pair Rule)} {op : Rule} {first second : RewriteRule}
    {others : List RewriteRule} (hhead : parsePermissionTerm head = .ok first)
    (hrest : operandLoop rest = .ok ((second :: others).map fun term => (op, term))) :
    parsePermissionExpr (.mk .permissionExpr text (head :: rest)) =
      match op with
      | .unionOp => .ok (.union (first :: second :: others))
      | .intersectionOp => .ok (.intersection (first :: second :: others))
      | .exclusionOp =>
          if others.isEmpty then .ok (.exclusion first second) else .error .multipleExclusions
      | other => .error (unexpectedRule other) := by
  have hsame : ∀ operand ∈ others.map fun term => (op, term), ¬ (operand.1 != op) = true := by
    simp
  have hterms : (others.map fun term => (op, term)).map Prod.snd = others := by
    simp [Function.comp_def]
  simp only [parsePermissionExpr, Pair.inner, next, ok_bind, hhead, hrest, List.map_cons,
    hterms, List.isEmpty_map]
  rw [if_neg fun hany => ?_]
  · cases op <;> rfl
  · obtain ⟨operand, hoperand, hne⟩ := List.any_eq_true.mp hany
    exact hsame operand hoperand hne

theorem reads_rule {rule : RewriteRule} (hrule : rule.Written) (hts : ts.head? ∈ afterItem) :
    spelling.Reads Grammar.permissionExpr (rule.tokens ++ ts) ts
      (Walks .permissionExpr parsePermissionExpr rule) := by
  cases hrule with
  | term hterm =>
      have htokens : rule.tokens =
          joinTokens "+" ([rule].map RewriteRule.termTokens) := by
        cases hterm <;> rfl
      have hothers : ∀ term ∈ ([] : List RewriteRule), term.WrittenTerm := nofun
      rw [htokens]
      refine (reads_permissionExpr .union hterm hothers hts).mono ?_
      rintro _ ⟨text, head, rest, rfl, hhead, hrest⟩
      exact ⟨_, rfl, rfl, parsePermissionExpr_term hhead hrest⟩
  | @union children hlength hchildren =>
      match children, hlength with
      | first :: second :: others, _ =>
          rw [List.forall_mem_cons] at hchildren
          refine (reads_permissionExpr .union hchildren.1 hchildren.2 hts).mono ?_
          rintro _ ⟨text, head, rest, rfl, hhead, hrest⟩
          exact ⟨_, rfl, rfl, parsePermissionExpr_operands hhead hrest⟩
  | @intersection children hlength hchildren =>
      match children, hlength with
      | first :: second :: others, _ =>
          rw [List.forall_mem_cons] at hchildren
          refine (reads_permissionExpr .intersection hchildren.1 hchildren.2 hts).mono ?_
          rintro _ ⟨text, head, rest, rfl, hhead, hrest⟩
          exact ⟨_, rfl, rfl, parsePermissionExpr_operands hhead hrest⟩
  | @exclusion base excluded hbase hexcluded =>
      have hothers : ∀ term ∈ [excluded], term.WrittenTerm :=
        List.forall_mem_singleton.mpr hexcluded
      refine (reads_permissionExpr .exclusion hbase hothers hts).mono ?_
      rintro _ ⟨text, head, rest, rfl, hhead, hrest⟩
      exact ⟨_, rfl, rfl, parsePermissionExpr_operands hhead hrest⟩

theorem reads_permissionDef {perm : PermissionDef} (hperm : perm.Written)
    (hts : ts.head? ∈ afterItem) :
    spelling.Reads Grammar.permissionDef (perm.tokens ++ ts) ts
      (Walks .permissionDef parsePermissionDef perm) := by
  refine ((reads_literal "permission").seq ((reads_identifier hperm.name).seq
    ((reads_literal "=").seq (reads_rule hperm.rule hts)))).normal.mono ?_
  rintro _ ⟨text, _, rfl, _, _, rfl, rfl, _, _, rfl, rfl, _, _, rfl, rfl, expr, rfl, -, hexpr⟩
  refine ⟨_, rfl, rfl, ?_⟩
  show (do
    let rule ← parsePermissionExpr expr
    return { name := perm.name, rule } : Except ParseError PermissionDef) = .ok perm
  rw [hexpr]
  rfl

/-! ### Definitions -/

/-- The items of a definition, relations and permissions in any order. -/
def itemTokens : RelationDef ⊕ PermissionDef → List String :=
  Sum.elim RelationDef.tokens PermissionDef.tokens

def ItemWalks : RelationDef ⊕ PermissionDef → List (Pair Rule) → Prop :=
  Sum.elim (Walks .relationDef parseRelationDef) (Walks .permissionDef parsePermissionDef)

/-- A name that comes once has not come before. -/
theorem name_notMem {α : Type} {name : α → String} {l l' : List α} {x : α}
    (h : ((l ++ x :: l').map name).Nodup) : name x ∉ l.map name := by
  intro hmem
  rw [List.map_append, List.map_cons] at h
  exact (List.nodup_append.mp h).2.2 _ hmem _ List.mem_cons_self rfl

/-- The loop over the body pushes the items, when no name comes twice. -/
theorem bodyLoop_items {typeName : String} {items : List (RelationDef ⊕ PermissionDef)}
    {groups : List (List (Pair Rule))} (h : List.Forall₂ ItemWalks items groups)
    {relations : List RelationDef} {permissions : List PermissionDef}
    (hrelations : ((relations ++ items.filterMap Sum.getLeft?).map RelationDef.name).Nodup)
    (hpermissions :
      ((permissions ++ items.filterMap Sum.getRight?).map PermissionDef.name).Nodup) :
    bodyLoop typeName groups.flatten relations permissions =
      .ok (relations ++ items.filterMap Sum.getLeft?,
        permissions ++ items.filterMap Sum.getRight?) := by
  induction h generalizing relations permissions with
  | nil => simp [bodyLoop]; rfl
  | @cons item group items groups hitem _ ih =>
      rw [List.flatten_cons]
      cases item with
      | inl rel =>
          obtain ⟨pair, rfl, hrule, hpair⟩ := hitem
          simp only [List.filterMap_cons, Sum.getLeft?_inl, Sum.getRight?_inl] at *
          have hnew := name_notMem hrelations
          rw [List.append_cons] at hrelations
          have hloop := ih hrelations hpermissions
          rw [List.singleton_append, bodyLoop]
          simp only [hrule, hpair, ok_bind, hnew, if_false, hloop, List.append_assoc,
            List.singleton_append]
      | inr perm =>
          obtain ⟨pair, rfl, hrule, hpair⟩ := hitem
          simp only [List.filterMap_cons, Sum.getLeft?_inr, Sum.getRight?_inr] at *
          have hnew := name_notMem hpermissions
          rw [List.append_cons] at hpermissions
          have hloop := ih hrelations hpermissions
          rw [List.singleton_append, bodyLoop]
          simp only [hrule, hpair, ok_bind, hnew, if_false, hloop, List.append_assoc,
            List.singleton_append]

theorem reads_definitionBody {items : List (RelationDef ⊕ PermissionDef)}
    (hitems : ∀ item ∈ items, Sum.elim RelationDef.Written PermissionDef.Written item) :
    spelling.Reads Grammar.definitionBody (items.flatMap itemTokens ++ "\x7d" :: ts)
      ("\x7d" :: ts) fun pairs =>
        ∃ text groups, pairs = [.mk .definitionBody text (List.flatten groups)] ∧
          List.Forall₂ ItemWalks items groups := by
  have hclose : ("\x7d" :: ts).head? ∈ [some "\x7d"] := .head _
  have hstop : spelling.Rejects (.choice Grammar.relationDef Grammar.permissionDef)
      ("\x7d" :: ts) :=
    .choice (.normal (.seq_left (rejects_literal (c := 'r') rfl hclose (by decide))))
      (.normal (.seq_left (rejects_literal (c := 'p') rfl hclose (by decide))))
  have hbody : spelling.Reads (.star (.choice Grammar.relationDef Grammar.permissionDef))
      (items.flatMap itemTokens ++ "\x7d" :: ts) ("\x7d" :: ts) fun pairs =>
        ∃ groups, pairs = List.flatten groups ∧ List.Forall₂ ItemWalks items groups := by
    refine Scan.Reads.star (M := fun ts => ts.head? ∈ afterItem) hstop
      (.tail _ (.tail _ (.head _))) ?_ ?_
    · intro item _ ts'
      cases item with
      | inl rel => exact .head _
      | inr perm => exact .tail _ (.head _)
    · intro item hitem
      have hwritten := hitems item hitem
      cases item with
      | inl rel =>
          exact ⟨List.cons_ne_nil _ _,
            fun ts' hts' => .choice_left (reads_relationDef hwritten hts')⟩
      | inr perm =>
          refine ⟨List.cons_ne_nil _ _, fun ts' hts' => ?_⟩
          have hhead : (perm.tokens ++ ts').head? ∈ [some "permission"] := .head _
          have hother : spelling.Rejects Grammar.relationDef (perm.tokens ++ ts') :=
            .normal (.seq_left (rejects_literal (c := 'r') rfl hhead (by decide)))
          exact .choice_right hother (reads_permissionDef hwritten hts')
  refine hbody.normal.mono ?_
  rintro _ ⟨text, _, rfl, groups, rfl, hgroups⟩
  exact ⟨text, groups, rfl, hgroups⟩

/-- The items of a definition as it is written. -/
def items (td : TypeDefinition) : List (RelationDef ⊕ PermissionDef) :=
  td.relations.map Sum.inl ++ td.permissions.map Sum.inr

theorem getLeft?_items (td : TypeDefinition) :
    (items td).filterMap Sum.getLeft? = td.relations := by
  simp [items, List.filterMap_append, List.filterMap_map, Function.comp_def]

theorem getRight?_items (td : TypeDefinition) :
    (items td).filterMap Sum.getRight? = td.permissions := by
  simp [items, List.filterMap_append, List.filterMap_map, Function.comp_def]

/-- The walk of a definition is that of its body. -/
theorem parseDefinition_mk (text name bodyText : String) (items : List (Pair Rule)) :
    parseDefinition (.mk .definition text
        [.mk .identifier name [], .mk .definitionBody bodyText items]) =
      (do
        let body ← bodyLoop name items [] []
        return { name, relations := body.1, permissions := body.2 }) := rfl

theorem reads_definition {td : TypeDefinition} (htd : td.Written)
    (hrelations : (td.relations.map RelationDef.name).Nodup)
    (hpermissions : (td.permissions.map PermissionDef.name).Nodup) :
    spelling.Reads Grammar.definition (td.tokens ++ ts) ts
      (Walks .definition parseDefinition td) := by
  have hitems : ∀ item ∈ items td, Sum.elim RelationDef.Written PermissionDef.Written item := by
    intro item hitem
    rcases List.mem_append.mp hitem with h | h
    · obtain ⟨rel, hrel, rfl⟩ := List.mem_map.mp h
      exact htd.relations rel hrel
    · obtain ⟨perm, hperm, rfl⟩ := List.mem_map.mp h
      exact htd.permissions perm hperm
  have htokens : td.tokens ++ ts = "definition" :: td.name :: "\x7b" ::
      ((items td).flatMap itemTokens ++ "\x7d" :: ts) := by
    simp [TypeDefinition.tokens, items, itemTokens, List.flatMap_map, List.flatMap_append]
  rw [htokens]
  refine ((reads_literal "definition").seq ((reads_identifier htd.name).seq
    ((reads_literal "\x7b").seq ((@reads_definitionBody ts _ hitems).seq
      (reads_literal "\x7d"))))).normal.mono ?_
  rintro _ ⟨text, _, rfl, _, _, rfl, rfl, _, _, rfl, rfl, _, _, rfl, rfl, _, _, rfl,
    ⟨body, groups, rfl, hgroups⟩, rfl⟩
  refine ⟨_, rfl, rfl, ?_⟩
  rw [← getLeft?_items td] at hrelations
  rw [← getRight?_items td] at hpermissions
  have hloop := @bodyLoop_items td.name (items td) groups hgroups [] [] hrelations hpermissions
  rw [List.nil_append, List.nil_append, getLeft?_items, getRight?_items] at hloop
  refine (parseDefinition_mk _ td.name _ groups.flatten).trans ?_
  rw [hloop]
  rfl

end

/-! ### The whole text -/

theorem definitionLoop_definitions {items : List TypeDefinition}
    {groups : List (List (Pair Rule))}
    (h : List.Forall₂ (Walks .definition parseDefinition) items groups)
    {types : List TypeDefinition} (hnodup : ((types ++ items).map TypeDefinition.name).Nodup)
    (text : String) :
    definitionLoop (groups.flatten ++ [.mk .EOI text []]) types = .ok (types ++ items) := by
  induction h generalizing types with
  | nil => simp [definitionLoop, Pair.rule]; rfl
  | cons hitem _ ih =>
      obtain ⟨pair, rfl, hrule, hpair⟩ := hitem
      have hnew := name_notMem hnodup
      rw [List.append_cons] at hnodup
      have hloop := ih hnodup
      rw [List.flatten_cons, List.singleton_append, List.cons_append, definitionLoop]
      simp only [hrule, hpair, ok_bind, hnew, if_true, if_false, hloop, List.append_assoc,
        List.singleton_append]

theorem reads_definitions {schema : Schema} (hschema : schema.Written) :
    spelling.Reads (.seq (.star Grammar.definition) (.rule .EOI .normal .endOfInput))
      (schema.tokens ++ []) [] fun pairs => definitionLoop pairs [] = .ok schema.types := by
  have hstop : spelling.Rejects Grammar.definition [] :=
    .normal (.seq_left (rejects_literal (c := 'd') rfl (List.mem_singleton_self none)
      (by decide)))
  have hstar : spelling.Reads (.star Grammar.definition) (schema.tokens ++ []) []
      fun pairs => ∃ groups, pairs = List.flatten groups ∧
        List.Forall₂ (Walks .definition parseDefinition) schema.types groups :=
    Scan.Reads.star (M := fun _ => True) hstop trivial (fun _ _ _ => trivial) fun td htd =>
      ⟨List.cons_ne_nil _ _, fun _ _ => reads_definition (hschema.types td htd)
        (hschema.unique.relations td htd) (hschema.unique.permissions td htd)⟩
  have hend : spelling.Reads (.rule .EOI .normal .endOfInput : Expr Rule) [] [] fun pairs =>
      ∃ text, pairs = [.mk .EOI text []] := by
    intro text hbegins
    obtain rfl : text = [] := hbegins.2
    exact ⟨_, [], Parses.endOfInput.normal, spelling.follows_of_begins hbegins,
      Nat.le_refl _, _, rfl⟩
  refine (hstar.seq hend).mono ?_
  rintro _ ⟨_, _, rfl, ⟨groups, rfl, hgroups⟩, text, rfl⟩
  exact @definitionLoop_definitions _ _ hgroups [] hschema.unique.types text

end Parser

/-! ## The tokens are solid -/

/-- The tokens that are not names, and the keywords. -/
def punctuation : List String :=
  ["definition", "relation", "permission", "\x7b", "\x7d", ":", "|", "#", "=", "+", "&",
    "-", "->"]

/-- A name or one of the other tokens of the grammar. -/
def IsToken (t : String) : Prop :=
  IsIdentifier t ∨ t ∈ punctuation

theorem IsToken.solid {t : String} (h : IsToken t) : Solid t := by
  rcases h with h | h
  · exact h.solid
  · have hheads : ∀ t ∈ punctuation,
        t.toList.head?.any (fun c => c ∉ fillerStarts) = true := by decide
    obtain ⟨c, hc, hne⟩ := (Option.any_eq_true _ _).mp (hheads t h)
    obtain ⟨cs, hcons⟩ := List.head?_eq_some_iff.mp hc
    exact ⟨c, cs, hcons, of_decide_eq_true hne⟩

theorem isToken_joinTokens {separator : String} (hseparator : separator ∈ punctuation)
    {parts : List (List String)} (hparts : ∀ part ∈ parts, ∀ t ∈ part, IsToken t) :
    ∀ t ∈ joinTokens separator parts, IsToken t := by
  cases parts with
  | nil => nofun
  | cons first others =>
      rw [List.forall_mem_cons] at hparts
      intro t ht
      rcases List.mem_append.mp ht with ht | ht
      · exact hparts.1 t ht
      · obtain ⟨part, hpart, ht⟩ := List.mem_flatMap.mp ht
        rcases List.mem_cons.mp ht with rfl | ht
        · exact Or.inr hseparator
        · exact hparts.2 part hpart t ht

theorem SubjectTypeRef.Written.isToken {ref : SubjectTypeRef} (h : ref.Written) :
    ∀ t ∈ ref.tokens, IsToken t := by
  obtain ⟨typeName, relation⟩ := ref
  have hname : IsToken typeName := Or.inl h.typeName
  cases relation with
  | none => exact List.forall_mem_singleton.mpr hname
  | some name =>
      have hrelation : IsToken name := Or.inl (h.relation name rfl)
      have hhash : IsToken "#" := Or.inr (by decide)
      simp only [tokens, List.forall_mem_cons]
      exact ⟨hname, hhash, hrelation, nofun⟩

theorem RelationDef.Written.isToken {rel : RelationDef} (h : rel.Written) :
    ∀ t ∈ rel.tokens, IsToken t := by
  have hkeyword : IsToken "relation" := Or.inr (by decide)
  have hcolon : IsToken ":" := Or.inr (by decide)
  have hlist := @isToken_joinTokens "|" (by decide)
    (rel.subjectTypes.map SubjectTypeRef.tokens) (by
      rw [List.forall_mem_map]
      exact fun ref href => (h.subjectTypes ref href).isToken)
  simp only [tokens, List.cons_append, List.nil_append, List.forall_mem_cons]
  exact ⟨hkeyword, Or.inl h.name, hcolon, hlist⟩

theorem RewriteRule.WrittenTerm.isToken {rule : RewriteRule} (h : rule.WrittenTerm) :
    ∀ t ∈ rule.termTokens, IsToken t := by
  cases h with
  | this h => exact List.forall_mem_singleton.mpr (Or.inl h)
  | arrow hrel hperm =>
      have harrow : IsToken "->" := Or.inr (by decide)
      simp only [termTokens, List.forall_mem_cons]
      exact ⟨Or.inl hrel, harrow, Or.inl hperm, nofun⟩

theorem RewriteRule.Written.isToken {rule : RewriteRule} (h : rule.Written) :
    ∀ t ∈ rule.tokens, IsToken t := by
  have hterms : ∀ {children : List RewriteRule}, (∀ c ∈ children, c.WrittenTerm) →
      ∀ part ∈ children.map termTokens, ∀ t ∈ part, IsToken t := by
    intro children hchildren
    rw [List.forall_mem_map]
    exact fun c hc => (hchildren c hc).isToken
  cases h with
  | term h =>
      have htokens : rule.tokens = rule.termTokens := by cases h <;> rfl
      rw [htokens]
      exact h.isToken
  | union _ h => exact isToken_joinTokens (by decide) (hterms h)
  | intersection _ h => exact isToken_joinTokens (by decide) (hterms h)
  | @exclusion base excluded hbase hexcluded =>
      have hboth : ∀ c ∈ [base, excluded], c.WrittenTerm :=
        List.forall_mem_cons.mpr ⟨hbase, List.forall_mem_singleton.mpr hexcluded⟩
      exact isToken_joinTokens (by decide) (hterms hboth)

theorem PermissionDef.Written.isToken {perm : PermissionDef} (h : perm.Written) :
    ∀ t ∈ perm.tokens, IsToken t := by
  have hkeyword : IsToken "permission" := Or.inr (by decide)
  have hequals : IsToken "=" := Or.inr (by decide)
  simp only [tokens, List.cons_append, List.nil_append, List.forall_mem_cons]
  exact ⟨hkeyword, Or.inl h.name, hequals, h.rule.isToken⟩

theorem Schema.Written.isToken {schema : Schema} (h : schema.Written) :
    ∀ t ∈ schema.tokens, IsToken t := by
  have hkeyword : IsToken "definition" := Or.inr (by decide)
  have hopen : IsToken "\x7b" := Or.inr (by decide)
  have hclose : IsToken "\x7d" := Or.inr (by decide)
  intro t ht
  obtain ⟨td, htd, ht⟩ := List.mem_flatMap.mp ht
  have hwritten := h.types td htd
  have hall : ∀ t ∈ td.tokens, IsToken t := by
    simp only [TypeDefinition.tokens, List.cons_append, List.nil_append,
      List.forall_mem_cons, List.forall_mem_append]
    refine ⟨hkeyword, Or.inl hwritten.name, hopen, ?_, ?_, hclose, nofun⟩
    · intro t ht
      obtain ⟨rel, hrel, ht⟩ := List.mem_flatMap.mp ht
      exact (hwritten.relations rel hrel).isToken t ht
    · intro t ht
      obtain ⟨perm, hperm, ht⟩ := List.mem_flatMap.mp ht
      exact (hwritten.permissions perm hperm).isToken t ht
  exact hall t ht

/-- **A text that spells a schema is parsed as the schema.** -/
theorem parseSchema_spelled (schema : Schema) (hschema : schema.Written) (text : String)
    (htext : Spells schema.tokens text) : parseSchema text = .ok schema := by
  obtain ⟨filler, start, hfiller, hstarts, htext⟩ := htext
  have hsolid : ∀ t ∈ schema.tokens, Solid t := fun t ht => (hschema.isToken t ht).solid
  obtain ⟨p, hskip⟩ := skip_filler (hstarts.stops hsolid) hfiller 0
  have hreads := Parser.reads_definitions hschema
  rw [List.append_nil] at hreads
  obtain ⟨pairs, rest, hparses, -, -, hpairs⟩ := hreads start ⟨hsolid, hstarts⟩
  have hparses : Parses Grammar.trivia.skip false _ start pairs rest := hparses
  obtain ⟨p', hrun⟩ := hparses p
  have hmatch : SchemaParser.parse text =
      some [.mk .schema (covered (filler ++ start) rest) pairs] := by
    have hstart : (Expr.startOfInput : Expr Rule).run Grammar.trivia.skip false
        ⟨0, filler ++ start⟩ = some ([], ⟨0, filler ++ start⟩) := rfl
    have hgap : gap Grammar.trivia.skip false ⟨0, filler ++ start⟩ = ⟨p, start⟩ := hskip
    rw [SchemaParser.parse, Peg.parse, htext, Grammar.schema, run_normal, run_seq]
    simp only [hstart, hgap, hrun]
    rfl
  unfold parseSchema
  simp only [hmatch, Parser.schemaLoop, Pair.rule, Pair.inner, if_true, hpairs, ok_bind]
  rfl

/-- A type, a relation and a permission, all named by keywords. -/
def keywordSchema : Schema where
  types :=
    [{ name := "definition"
       relations := [⟨"relation", [⟨"permission", none⟩, ⟨"definition", some "relation"⟩]⟩]
       permissions := [⟨"permission",
         .exclusion (.this "relation") (.arrow "relation" "permission")⟩] }]

theorem keywordSchema_written : keywordSchema.Written := by
  refine ⟨⟨by decide, by decide, by decide⟩, List.forall_mem_singleton.mpr ⟨by decide, ?_, ?_⟩⟩
  · refine List.forall_mem_singleton.mpr ⟨by decide, List.cons_ne_nil _ _, ?_⟩
    exact List.forall_mem_cons.mpr
      ⟨⟨by decide, by decide⟩, List.forall_mem_singleton.mpr ⟨by decide, by decide⟩⟩
  · exact List.forall_mem_singleton.mpr
      ⟨by decide, .exclusion (.this (by decide)) (.arrow (by decide) (by decide))⟩

theorem parseSchema_spelled_keywords :
    parseSchema (String.ofList (oneSpace keywordSchema.tokens)) = .ok keywordSchema :=
  parseSchema_spelled keywordSchema keywordSchema_written _ (spells_oneSpace _)

end Kraalzibar
