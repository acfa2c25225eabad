import Kraalzibar.Core.Grammar
import Kraalzibar.Core.Schema
import Kraalzibar.Foundations.ShortCircuit

/-!
# Parsing a schema

`parse_schema` walks the pairs of a match of the grammar and builds the schema,
rejecting duplicate names and mixed operators.  The grammar has no parentheses,
so a permission's rule is one term, or one operator applied to terms.

* `parseSchema` — the parser, one definition for each function of `parser.rs`;
* `RewriteRule.Flat` — the rules it can build;
* `parseSchema_flat` — every rule of an accepted schema is one of them.
-/

namespace Kraalzibar

open Foundations Peg

/-- What `ParseError::Syntax` reports.  pest renders its message from the text it
rejects, which stands for the message here. -/
inductive SyntaxCause where
  | rejected (input : String)
  | unexpectedRule (rule : Rule)
  | missingToken (context : String)
deriving DecidableEq

inductive ParseError where
  | syntaxError (cause : SyntaxCause)
  | mixedOperators
  | multipleExclusions
  | duplicateType (name : String)
  | duplicateRelation (typeName relation : String)
  | duplicatePermission (typeName permission : String)
deriving DecidableEq

namespace Parser

def unexpectedRule (rule : Rule) : ParseError := .syntaxError (.unexpectedRule rule)

def missingToken (context : String) : ParseError := .syntaxError (.missingToken context)

/-- `inner.next().ok_or_else(|| missing_token(context))?`, with what is left. -/
def next (context : String) :
    List (Pair Rule) → Except ParseError (Pair Rule × List (Pair Rule))
  | [] => .error (missingToken context)
  | pair :: rest => .ok (pair, rest)

def parsePermissionTerm (pair : Pair Rule) : Except ParseError RewriteRule := do
  let (inner, _) ← next "permission term content" pair.inner
  match inner.rule with
  | .arrowExpr =>
      let (tupleset, parts) ← next "arrow tupleset" inner.inner
      let (computed, _) ← next "arrow computed" parts
      return .arrow tupleset.text computed.text
  | .identifier => return .this inner.text
  | other => throw (unexpectedRule other)

/-- `while let Some(op) = inner.next()`: the operators and the terms after them. -/
def operandLoop : List (Pair Rule) → Except ParseError (List (Rule × RewriteRule))
  | [] => return []
  | [_] => throw (missingToken "permission term after operator")
  | op :: pair :: rest => do
      let term ← parsePermissionTerm pair
      let opsAndTerms ← operandLoop rest
      return (op.rule, term) :: opsAndTerms

def parsePermissionExpr (pair : Pair Rule) : Except ParseError RewriteRule := do
  let (head, rest) ← next "permission term" pair.inner
  let first ← parsePermissionTerm head
  let opsAndTerms ← operandLoop rest
  match opsAndTerms with
  | [] => return first
  | (firstOp, term) :: others =>
      if others.any (fun (op, _) => op != firstOp) then
        throw .mixedOperators
      else
        match firstOp with
        | .unionOp => return .union (first :: term :: others.map Prod.snd)
        | .intersectionOp => return .intersection (first :: term :: others.map Prod.snd)
        | .exclusionOp =>
            if others.isEmpty then return .exclusion first term
            else throw .multipleExclusions
        | other => throw (unexpectedRule other)

def parsePermissionDef (pair : Pair Rule) : Except ParseError PermissionDef := do
  let (name, rest) ← next "permission name" pair.inner
  let (expr, _) ← next "permission expression" rest
  let rule ← parsePermissionExpr expr
  return { name := name.text, rule }

def parseSubjectTypeRef (pair : Pair Rule) : Except ParseError SubjectTypeRef := do
  let (typeName, rest) ← next "subject type name" pair.inner
  return { typeName := typeName.text, relation := rest.head?.map Pair.text }

def parseRelationDef (pair : Pair Rule) : Except ParseError RelationDef := do
  let (name, rest) ← next "relation name" pair.inner
  let (subjectTypeList, _) ← next "subject type list" rest
  let subjectTypes ← subjectTypeList.inner.mapM parseSubjectTypeRef
  return { name := name.text, subjectTypes }

/-- The loop of `parse_definition` over the body.  `relations` and `permissions`
hold what it has pushed, whose names are the two sets of seen names. -/
def bodyLoop (typeName : String) :
    List (Pair Rule) → List RelationDef → List PermissionDef →
      Except ParseError (List RelationDef × List PermissionDef)
  | [], relations, permissions => return (relations, permissions)
  | item :: items, relations, permissions =>
      match item.rule with
      | .relationDef => do
          let rel ← parseRelationDef item
          if rel.name ∈ relations.map RelationDef.name then
            throw (.duplicateRelation typeName rel.name)
          else bodyLoop typeName items (relations ++ [rel]) permissions
      | .permissionDef => do
          let perm ← parsePermissionDef item
          if perm.name ∈ permissions.map PermissionDef.name then
            throw (.duplicatePermission typeName perm.name)
          else bodyLoop typeName items relations (permissions ++ [perm])
      | _ => bodyLoop typeName items relations permissions

def parseDefinition (pair : Pair Rule) : Except ParseError TypeDefinition := do
  let (name, rest) ← next "definition name" pair.inner
  let (body, _) ← next "definition body" rest
  let (relations, permissions) ← bodyLoop name.text body.inner [] []
  return { name := name.text, relations, permissions }

/-- The loop over the pairs of a `schema` pair. -/
def definitionLoop : List (Pair Rule) → List TypeDefinition →
    Except ParseError (List TypeDefinition)
  | [], types => return types
  | inner :: rest, types =>
      if inner.rule = .definition then do
        let typeDef ← parseDefinition inner
        if typeDef.name ∈ types.map TypeDefinition.name then
          throw (.duplicateType typeDef.name)
        else definitionLoop rest (types ++ [typeDef])
      else definitionLoop rest types

/-- The loop over the pairs of the match, of which only `schema` pairs count. -/
def schemaLoop : List (Pair Rule) → List TypeDefinition →
    Except ParseError (List TypeDefinition)
  | [], types => return types
  | pair :: pairs, types =>
      if pair.rule = .schema then do
        let types ← definitionLoop pair.inner types
        schemaLoop pairs types
      else schemaLoop pairs types

end Parser

def parseSchema (input : String) : Except ParseError Schema :=
  match SchemaParser.parse input with
  | none => .error (.syntaxError (.rejected input))
  | some pairs => do
      let types ← Parser.schemaLoop pairs []
      return { types }

/-! ## The rules the parser builds -/

/-- A rule without operators: `permission_term`. -/
inductive RewriteRule.IsTerm : RewriteRule → Prop
  | this (name : String) : IsTerm (.this name)
  | arrow (tuplesetRel computedPerm : String) : IsTerm (.arrow tuplesetRel computedPerm)

/-- One term, or one operator applied to terms: `permission_expr`. -/
inductive RewriteRule.Flat : RewriteRule → Prop
  | term {rule : RewriteRule} (h : rule.IsTerm) : Flat rule
  | union {children : List RewriteRule} (hlength : 2 ≤ children.length)
      (h : ∀ c ∈ children, c.IsTerm) : Flat (.union children)
  | intersection {children : List RewriteRule} (hlength : 2 ≤ children.length)
      (h : ∀ c ∈ children, c.IsTerm) : Flat (.intersection children)
  | exclusion {base excluded : RewriteRule} (hbase : base.IsTerm)
      (hexcluded : excluded.IsTerm) : Flat (.exclusion base excluded)

/-- Every permission of the schema has a rule satisfying `P`. -/
def Schema.EveryRule (schema : Schema) (P : RewriteRule → Prop) : Prop :=
  ∀ td ∈ schema.types, ∀ pd ∈ td.permissions, P pd.rule

theorem Schema.EveryRule.imp {schema : Schema} {P Q : RewriteRule → Prop}
    (h : schema.EveryRule P) (hPQ : ∀ rule, P rule → Q rule) : schema.EveryRule Q :=
  fun td htd pd hpd => hPQ _ (h td htd pd hpd)

/-- What the lookups find has such a rule. -/
theorem Schema.EveryRule.get {schema : Schema} {P : RewriteRule → Prop}
    (h : schema.EveryRule P) {typeName permission : String} {td : TypeDefinition}
    {pd : PermissionDef} (htype : schema.getType typeName = some td)
    (hperm : td.getPermission permission = some pd) : P pd.rule :=
  h td (List.mem_of_find?_eq_some htype) pd (List.mem_of_find?_eq_some hperm)

namespace Parser

theorem parsePermissionTerm_isTerm {pair : Pair Rule} {rule : RewriteRule}
    (h : parsePermissionTerm pair = .ok rule) : rule.IsTerm := by
  obtain ⟨⟨inner, rest⟩, -, h⟩ := bind_eq_ok.mp h
  cases hrule : inner.rule <;> simp only [hrule] at h
  case arrowExpr =>
    obtain ⟨⟨tupleset, parts⟩, -, h⟩ := bind_eq_ok.mp h
    obtain ⟨⟨computed, last⟩, -, h⟩ := bind_eq_ok.mp h
    obtain rfl := Except.ok.inj h
    exact .arrow _ _
  case identifier =>
    obtain rfl := Except.ok.inj h
    exact .this _
  all_goals cases h

theorem operandLoop_isTerm {pairs : List (Pair Rule)}
    {opsAndTerms : List (Rule × RewriteRule)} (h : operandLoop pairs = .ok opsAndTerms) :
    ∀ term ∈ opsAndTerms.map Prod.snd, term.IsTerm := by
  induction pairs using operandLoop.induct generalizing opsAndTerms with
  | case1 =>
      obtain rfl := Except.ok.inj h
      simp
  | case2 pair => cases h
  | case3 op pair rest ih =>
      obtain ⟨term, hterm, h⟩ := bind_eq_ok.mp h
      obtain ⟨others, hothers, h⟩ := bind_eq_ok.mp h
      obtain rfl := Except.ok.inj h
      rw [List.map_cons, List.forall_mem_cons]
      exact ⟨parsePermissionTerm_isTerm hterm, ih hothers⟩

/-- **The rule of a permission expression is flat.** -/
theorem parsePermissionExpr_flat {pair : Pair Rule} {rule : RewriteRule}
    (h : parsePermissionExpr pair = .ok rule) : rule.Flat := by
  obtain ⟨⟨head, rest⟩, -, h⟩ := bind_eq_ok.mp h
  obtain ⟨first, hfirst, h⟩ := bind_eq_ok.mp h
  obtain ⟨opsAndTerms, hops, h⟩ := bind_eq_ok.mp h
  have hfirst := parsePermissionTerm_isTerm hfirst
  have hterms := operandLoop_isTerm hops
  match opsAndTerms with
  | [] =>
      obtain rfl := Except.ok.inj h
      exact .term hfirst
  | (firstOp, term) :: others =>
      rw [List.map_cons, List.forall_mem_cons] at hterms
      have hall : ∀ c ∈ first :: term :: others.map Prod.snd, c.IsTerm := by
        simpa [hfirst, hterms.1] using hterms.2
      simp only at h
      split at h
      · cases h
      · cases firstOp <;> simp only at h
        case unionOp =>
          obtain rfl := Except.ok.inj h
          exact .union (by simp) hall
        case intersectionOp =>
          obtain rfl := Except.ok.inj h
          exact .intersection (by simp) hall
        case exclusionOp =>
          split at h
          · obtain rfl := Except.ok.inj h
            exact .exclusion hfirst hterms.1
          · cases h
        all_goals cases h

theorem parsePermissionDef_flat {pair : Pair Rule} {perm : PermissionDef}
    (h : parsePermissionDef pair = .ok perm) : perm.rule.Flat := by
  obtain ⟨⟨name, rest⟩, -, h⟩ := bind_eq_ok.mp h
  obtain ⟨⟨expr, last⟩, -, h⟩ := bind_eq_ok.mp h
  obtain ⟨rule, hrule, h⟩ := bind_eq_ok.mp h
  obtain rfl := Except.ok.inj h
  exact parsePermissionExpr_flat hrule

/-- **The body of a definition.**  What holds of the lists it starts with, and of longer
ones whenever a relation or permission of a new name is pushed, holds of its result. -/
theorem bodyLoop_inv {P : List RelationDef → List PermissionDef → Prop}
    (hrelation : ∀ relations permissions item rel, P relations permissions →
      parseRelationDef item = .ok rel → rel.name ∉ relations.map RelationDef.name →
      P (relations ++ [rel]) permissions)
    (hpermission : ∀ relations permissions item perm, P relations permissions →
      parsePermissionDef item = .ok perm →
      perm.name ∉ permissions.map PermissionDef.name →
      P relations (permissions ++ [perm]))
    {typeName : String} {items : List (Pair Rule)} {relations : List RelationDef}
    {permissions : List PermissionDef} {result : List RelationDef × List PermissionDef}
    (h : bodyLoop typeName items relations permissions = .ok result)
    (hP : P relations permissions) : P result.1 result.2 := by
  induction items generalizing relations permissions with
  | nil =>
      obtain rfl := Except.ok.inj h
      exact hP
  | cons item items ih =>
      unfold bodyLoop at h
      split at h
      · obtain ⟨rel, hrel, h⟩ := bind_eq_ok.mp h
        split at h
        · cases h
        · exact ih h (hrelation _ _ _ _ hP hrel ‹_›)
      · obtain ⟨perm, hperm, h⟩ := bind_eq_ok.mp h
        split at h
        · cases h
        · exact ih h (hpermission _ _ _ _ hP hperm ‹_›)
      · exact ih h hP

theorem parseDefinition_inv {P : List RelationDef → List PermissionDef → Prop}
    (hnil : P [] [])
    (hrelation : ∀ relations permissions item rel, P relations permissions →
      parseRelationDef item = .ok rel → rel.name ∉ relations.map RelationDef.name →
      P (relations ++ [rel]) permissions)
    (hpermission : ∀ relations permissions item perm, P relations permissions →
      parsePermissionDef item = .ok perm →
      perm.name ∉ permissions.map PermissionDef.name →
      P relations (permissions ++ [perm]))
    {pair : Pair Rule} {td : TypeDefinition} (h : parseDefinition pair = .ok td) :
    P td.relations td.permissions := by
  obtain ⟨⟨name, rest⟩, -, h⟩ := bind_eq_ok.mp h
  obtain ⟨⟨body, last⟩, -, h⟩ := bind_eq_ok.mp h
  obtain ⟨⟨relations, permissions⟩, hbody, h⟩ := bind_eq_ok.mp h
  obtain rfl := Except.ok.inj h
  exact bodyLoop_inv hrelation hpermission hbody hnil

section

variable {P : List TypeDefinition → Prop}
  (hstep : ∀ types pair td, P types → parseDefinition pair = .ok td →
    td.name ∉ types.map TypeDefinition.name → P (types ++ [td]))
include hstep

theorem definitionLoop_inv {pairs : List (Pair Rule)} {types result : List TypeDefinition}
    (h : definitionLoop pairs types = .ok result) (hP : P types) : P result := by
  induction pairs generalizing types with
  | nil =>
      obtain rfl := Except.ok.inj h
      exact hP
  | cons inner rest ih =>
      unfold definitionLoop at h
      split at h
      · obtain ⟨typeDef, hdef, h⟩ := bind_eq_ok.mp h
        split at h
        · cases h
        · exact ih h (hstep _ _ _ hP hdef ‹_›)
      · exact ih h hP

theorem schemaLoop_inv {pairs : List (Pair Rule)} {types result : List TypeDefinition}
    (h : schemaLoop pairs types = .ok result) (hP : P types) : P result := by
  induction pairs generalizing types with
  | nil =>
      obtain rfl := Except.ok.inj h
      exact hP
  | cons pair pairs ih =>
      unfold schemaLoop at h
      split at h
      · obtain ⟨types', htypes, h⟩ := bind_eq_ok.mp h
        exact ih h (definitionLoop_inv hstep htypes hP)
      · exact ih h hP

/-- **An accepted schema** has what every definition of a new name adds to. -/
theorem parseSchema_inv (hnil : P []) {input : String} {schema : Schema}
    (h : parseSchema input = .ok schema) : P schema.types := by
  unfold parseSchema at h
  split at h
  · cases h
  · obtain ⟨types, htypes, h⟩ := bind_eq_ok.mp h
    obtain rfl := Except.ok.inj h
    exact schemaLoop_inv hstep htypes hnil

end

end Parser

/-- **Every rule of an accepted schema is flat.** -/
theorem parseSchema_flat {input : String} {schema : Schema}
    (h : parseSchema input = .ok schema) : schema.EveryRule RewriteRule.Flat := by
  refine Parser.parseSchema_inv (P := fun types => Schema.EveryRule ⟨types⟩ _) ?_ nofun h
  intro types pair td htypes hdef _ td' htd'
  rcases List.mem_append.mp htd' with htd' | htd'
  · exact htypes td' htd'
  · obtain rfl := List.mem_singleton.mp htd'
    refine Parser.parseDefinition_inv
      (P := fun _ permissions => ∀ pd ∈ permissions, pd.rule.Flat) nofun ?_ ?_ hdef
    · exact fun _ _ _ _ hflat _ _ => hflat
    · intro _ _ _ perm hflat hperm _
      simpa [or_imp, forall_and, Parser.parsePermissionDef_flat hperm] using hflat

/-- **An accepted schema has no name twice** among its types, or among the relations or
the permissions of a type. -/
theorem parseSchema_namesUnique {input : String} {schema : Schema}
    (h : parseSchema input = .ok schema) : schema.NamesUnique := by
  have hconcat : ∀ {α : Type} {name : α → String} {l : List α} {a : α},
      (l.map name).Nodup → name a ∉ l.map name → ((l ++ [a]).map name).Nodup := by
    intro α name l a hl ha
    rw [List.map_append, List.map_singleton, ← List.concat_eq_append]
    exact hl.concat ha
  refine Parser.parseSchema_inv (P := fun types => Schema.NamesUnique ⟨types⟩) ?_
    ⟨.nil, nofun, nofun⟩ h
  intro types pair td hunique hdef hfresh
  have hnames := Parser.parseDefinition_inv (P := fun relations permissions =>
    (relations.map RelationDef.name).Nodup ∧ (permissions.map PermissionDef.name).Nodup)
    ⟨.nil, .nil⟩ (fun _ _ _ _ hP _ hnew => ⟨hconcat hP.1 hnew, hP.2⟩)
    (fun _ _ _ _ hP _ hnew => ⟨hP.1, hconcat hP.2 hnew⟩) hdef
  refine ⟨hconcat hunique.types hfresh, ?_, ?_⟩
  · intro td' htd'
    rcases List.mem_append.mp htd' with htd' | htd'
    · exact hunique.relations td' htd'
    · obtain rfl := List.mem_singleton.mp htd'
      exact hnames.1
  · intro td' htd'
    rcases List.mem_append.mp htd' with htd' | htd'
    · exact hunique.permissions td' htd'
    · obtain rfl := List.mem_singleton.mp htd'
      exact hnames.2

/-! ## No empty intersections -/

/-- Every intersection in the rule has an operand. -/
inductive RewriteRule.Populated : RewriteRule → Prop
  | this (name : String) : Populated (.this name)
  | union {children : List RewriteRule} (h : ∀ c ∈ children, Populated c) :
      Populated (.union children)
  | intersection {children : List RewriteRule} (hne : children ≠ [])
      (h : ∀ c ∈ children, Populated c) : Populated (.intersection children)
  | exclusion {base excluded : RewriteRule} (hbase : Populated base)
      (hexcluded : Populated excluded) : Populated (.exclusion base excluded)
  | arrow (tuplesetRel computedPerm : String) : Populated (.arrow tuplesetRel computedPerm)

theorem RewriteRule.IsTerm.populated {rule : RewriteRule} (h : rule.IsTerm) :
    rule.Populated := by
  cases h with
  | this name => exact .this name
  | arrow rel perm => exact .arrow rel perm

theorem RewriteRule.Flat.populated {rule : RewriteRule} (h : rule.Flat) :
    rule.Populated := by
  cases h with
  | term h => exact h.populated
  | union hlength h => exact .union fun c hc => (h c hc).populated
  | @intersection children hlength h =>
      have hne : children ≠ [] := List.ne_nil_of_length_pos (by omega)
      exact .intersection hne fun c hc => (h c hc).populated
  | exclusion hbase hexcluded => exact .exclusion hbase.populated hexcluded.populated

/-- An accepted schema has no empty intersection, which would grant everything. -/
theorem parseSchema_populated {input : String} {schema : Schema}
    (h : parseSchema input = .ok schema) : schema.EveryRule RewriteRule.Populated :=
  (parseSchema_flat h).imp fun _ hflat => hflat.populated

end Kraalzibar
