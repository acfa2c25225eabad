import Kraalzibar.Foundations.SqlText
import Kraalzibar.Storage.Postgres.Store

/-!
# The texts of the filter statements

`delete_matching_tuples` and `read_tuples` send a text and a list of bound values.
Both grow three things side by side, conditions, values and the number of the next
placeholder, from different starting points.  Here the texts are those of the
source, character for character, and their meaning is read off the texts.

* `Builder.Numbered` — the placeholders in use are exactly those below the next
  one; every field keeps it;
* `deleteMatchingTuplesStatement_wellBound` / `readTuplesStatement_wellBound` —
  each placeholder has its value and each value its placeholder;
* `statements_mean_matches` — the clauses are true on a row exactly when the
  filter matches its tuple and the row is active, or visible;
* `deleteMatchingTuples_eq_update` / `readSelects_eq_evalWhere` — the store of this
  development runs these statements.
-/

namespace Kraalzibar.Postgres

open Foundations Foundations.Sql

/-! ## Names -/

def Column.name : Column → String
  | .objectType => "object_type"
  | .objectId => "object_id"
  | .relation => "relation"
  | .subjectType => "subject_type"
  | .subjectId => "subject_id"
  | .subjectRelation => "subject_relation"
  | .createdTxId => "created_tx_id"
  | .deletedTxId => "deleted_tx_id"

/-- The columns of `relation_tuples`. -/
def columns : Columns Column where
  name := Column.name
  read w := [Column.objectType, .objectId, .relation, .subjectType, .subjectId,
    .subjectRelation, .createdTxId, .deletedTxId].find? fun c => c.name.toList = w
  read_name := by rintro ⟨⟩ <;> decide
  name_lower := by rintro ⟨⟩ <;> decide

/-- `char::is_ascii_hexdigit` -/
def isAsciiHexdigit (c : Char) : Bool :=
  c.isDigit || ('a' ≤ c && c ≤ 'f') || ('A' ≤ c && c ≤ 'F')

def isValidSchemaName (name : String) : Bool :=
  "tenant_".toList.isPrefixOf name.toList && name.utf8ByteSize == 39 &&
    (name.toList.drop 7).all isAsciiHexdigit

/-- `validate_schema_name`. -/
def validateSchemaName (name : String) : Except StorageError Unit :=
  if isValidSchemaName name then .ok ()
  else .error (.internal ("invalid tenant schema name: " ++ name))

/-- The schema of a tenant, as `create_tenant_schema` accepts it. -/
structure SchemaName where
  name : String
  valid : validateSchemaName name = .ok ()

/-- `Uuid::as_simple`: 32 lower-case hexadecimal digits. -/
def asSimple (uuid : BitVec 128) : String :=
  String.ofList ((List.range 32).map fun i =>
    Nat.digitChar ((uuid.toNat >>> (4 * (31 - i))) % 16))

def schemaNameForTenant (tenantId : TenantId) : String :=
  "tenant_" ++ asSimple tenantId.uuid

theorem isAsciiHexdigit_digitChar {n : Nat} (h : n < 16) :
    isAsciiHexdigit n.digitChar = true ∧ n.digitChar.utf8Size = 1 := by
  have hall : ∀ i : Fin 16, isAsciiHexdigit (Nat.digitChar i) = true ∧
      (Nat.digitChar i).utf8Size = 1 := by decide
  exact hall ⟨n, h⟩

theorem utf8ByteSize_ofList {l : List Char} (h : ∀ c ∈ l, c.utf8Size = 1) :
    (String.ofList l).utf8ByteSize = l.length := by
  induction l with
  | nil => rfl
  | cons c l ih =>
      rw [List.forall_mem_cons] at h
      rw [String.ofList_cons, String.utf8ByteSize_append, String.utf8ByteSize_singleton, h.1,
        ih h.2, List.length_cons, Nat.add_comm]

/-- The schema name of every tenant is accepted. -/
theorem validate_schemaNameForTenant (tenantId : TenantId) :
    validateSchemaName (schemaNameForTenant tenantId) = .ok () := by
  have hdigit : ∀ c ∈ (asSimple tenantId.uuid).toList,
      isAsciiHexdigit c = true ∧ c.utf8Size = 1 := by
    intro c hc
    rw [asSimple, String.toList_ofList, List.mem_map] at hc
    obtain ⟨i, -, rfl⟩ := hc
    exact isAsciiHexdigit_digitChar (Nat.mod_lt _ (by decide))
  have hsize : (asSimple tenantId.uuid).utf8ByteSize = 32 := by
    rw [asSimple, utf8ByteSize_ofList]
    · simp
    · intro c hc
      exact (hdigit c (by rw [asSimple, String.toList_ofList]; exact hc)).2
  have hvalid : isValidSchemaName (schemaNameForTenant tenantId) = true := by
    rw [isValidSchemaName, schemaNameForTenant, String.toList_append,
      String.utf8ByteSize_append, hsize, Bool.and_eq_true, Bool.and_eq_true]
    refine ⟨⟨?_, by decide⟩, ?_⟩
    · rw [List.isPrefixOf_iff_prefix]
      exact List.prefix_append _ _
    · rw [List.drop_left' (by decide), List.all_eq_true]
      exact fun c hc => (hdigit c hc).1
  exact if_pos hvalid

def SchemaName.ofTenant (tenantId : TenantId) : SchemaName :=
  { name := schemaNameForTenant tenantId, valid := validate_schemaNameForTenant tenantId }

/-- A schema name has no blank and no `$` in it. -/
theorem SchemaName.plain (schema : SchemaName) :
    ∀ c ∈ schema.name.toList, c.isWhitespace = false ∧ c ≠ '$' := by
  have hvalid : isValidSchemaName schema.name = true := by
    by_contra hinvalid
    have herror := schema.valid
    rw [validateSchemaName, if_neg hinvalid] at herror
    cases herror
  rw [isValidSchemaName, Bool.and_eq_true, Bool.and_eq_true, List.isPrefixOf_iff_prefix] at hvalid
  obtain ⟨⟨⟨rest, hrest⟩, -⟩, hdigits⟩ := hvalid
  rw [← hrest, List.drop_left' (by decide), List.all_eq_true] at hdigits
  intro c hc
  rw [← hrest, List.mem_append] at hc
  rcases hc with hc | hc
  · have hblank : ∀ ch ∈ "tenant_".toList, ch.isWhitespace = false :=
      notBlank_of_any (by decide)
    have hdollar : '$' ∉ "tenant_".toList := by decide
    exact ⟨hblank c hc, fun heq => hdollar (heq ▸ hc)⟩
  · have hhex := hdigits c hc
    refine ⟨?_, by rintro rfl; revert hhex; decide⟩
    rw [← Bool.not_eq_true]
    intro hblank
    simp only [Char.isWhitespace, Bool.or_eq_true, decide_eq_true_eq] at hblank
    rcases hblank with ((rfl | rfl) | rfl) | rfl <;> revert hhex <;> decide

/-! ## The statements -/

/-- `conditions.join(" AND ")` -/
def Builder.whereClause (b : Builder) : String :=
  String.intercalate " AND " (b.conditions.map fun c => c.text columns)

/-- `delete_matching_tuples`. -/
def deleteMatchingTuplesStatement (schema : SchemaName) (filter : TupleFilter) (txId : Int) :
    Statement :=
  { text := "UPDATE " ++ schema.name ++ ".relation_tuples SET deleted_tx_id = $2 WHERE " ++
      (deleteBuilder filter).whereClause
    binds := .int ACTIVE_TX_ID :: .int txId :: (deleteBuilder filter).binds }

def limitClause : Option Nat → String
  | some n => " LIMIT " ++ toString n
  | none => ""

def readTuplesHead : String :=
  "SELECT object_type, object_id, relation, subject_type, subject_id, subject_relation\n" ++
    "           FROM "

/-- `read_tuples`. -/
def readTuplesStatement (schema : SchemaName) (filter : TupleFilter) (snapshot : Int)
    (limit : Option Nat) : Statement :=
  { text := readTuplesHead ++ schema.name ++ ".relation_tuples\n           WHERE " ++
      (readBuilder filter).whereClause ++ limitClause limit
    binds := .int snapshot :: (readBuilder filter).binds }

/-! ## Placeholders -/

/-- With the placeholders `reserved` for the rest of the statement, those in use
are exactly the ones below the next, and that many values are bound. -/
def Builder.Numbered (reserved : List Nat) (fixed : List Value) (b : Builder) : Prop :=
  b.bindIdx = (fixed ++ b.binds).length + 1 ∧
    ∀ k, k ∈ reserved ++ b.conditions.filterMap Condition.placeholder ↔
      0 < k ∧ k < b.bindIdx

namespace Builder

variable {reserved : List Nat} {fixed : List Value} {b : Builder}

/-- A field that is set uses the next placeholder and binds the next value. -/
theorem Numbered.pushEq (h : b.Numbered reserved fixed) (column : Column)
    (v : Option String) : (b.pushEq column v).Numbered reserved fixed := by
  cases v with
  | none => exact h
  | some v =>
      obtain ⟨hidx, hused⟩ := h
      refine ⟨by simp [Builder.pushEq, hidx, Nat.add_assoc], ?_⟩
      intro k
      have hnew : k ∈ reserved ++ (b.pushEq column (some v)).conditions.filterMap
            Condition.placeholder ↔
          k ∈ reserved ++ b.conditions.filterMap Condition.placeholder ∨ k = b.bindIdx := by
        simp [Builder.pushEq, Condition.placeholder, or_assoc]
      rw [hnew, hused k]
      show _ ↔ 0 < k ∧ k < b.bindIdx + 1
      omega

/-- The test for `NULL` uses no placeholder and binds no value. -/
theorem Numbered.pushSubjectRelation (h : b.Numbered reserved fixed)
    (v : Option (Option String)) : (b.pushSubjectRelation v).Numbered reserved fixed := by
  rcases v with _ | (_ | rel)
  · exact h
  · refine ⟨h.1, ?_⟩
    intro k
    have hused := h.2 k
    simpa [Builder.pushSubjectRelation, Condition.placeholder] using hused
  · exact h.pushEq _ _

theorem Numbered.pushFilter (h : b.Numbered reserved fixed) (filter : TupleFilter) :
    (b.pushFilter filter).Numbered reserved fixed :=
  (((((h.pushEq _ _).pushEq _ _).pushEq _ _).pushEq _ _).pushEq _ _).pushSubjectRelation _

/-- A clause that a filter was added to is not empty when it was not before. -/
theorem conditions_pushFilter_ne_nil (h : b.conditions ≠ []) (filter : TupleFilter) :
    (b.pushFilter filter).conditions ≠ [] := by
  have hpush : ∀ (b : Builder) (column : Column) (v : Option String), b.conditions ≠ [] →
      (b.pushEq column v).conditions ≠ [] := by
    intro b column v hb
    cases v with
    | none => exact hb
    | some v => exact List.append_ne_nil_of_right_ne_nil _ (List.cons_ne_nil _ _)
  have hfields := hpush _ .subjectId filter.subjectId (hpush _ .subjectType filter.subjectType
    (hpush _ .relation filter.relation (hpush _ .objectId filter.objectId
      (hpush b .objectType filter.objectType h))))
  unfold Builder.pushFilter
  rcases filter.subjectRelation with _ | (_ | rel)
  · exact hfields
  · exact List.append_ne_nil_of_right_ne_nil _ (List.cons_ne_nil _ _)
  · exact hpush _ _ _ hfields

end Builder

theorem deleteBuilder_numbered (filter : TupleFilter) (txId : Int) :
    (deleteBuilder filter).Numbered [2] [.int ACTIVE_TX_ID, .int txId] := by
  apply Builder.Numbered.pushFilter
  refine ⟨rfl, ?_⟩
  intro k
  simp only [List.filterMap_cons, Condition.placeholder, List.filterMap_nil, List.mem_append,
    List.mem_singleton]
  omega

theorem readBuilder_numbered (filter : TupleFilter) (snapshot : Int) :
    (readBuilder filter).Numbered [] [.int snapshot] := by
  apply Builder.Numbered.pushFilter
  refine ⟨rfl, ?_⟩
  intro k
  simp only [List.filterMap_cons, Condition.placeholder, List.filterMap_nil, List.nil_append,
    List.mem_cons, List.not_mem_nil, or_false]
  omega

theorem limitClause_endsNumber (limit : Option Nat) : EndsNumber (limitClause limit).toList := by
  cases limit with
  | none => simp [EndsNumber, limitClause]
  | some n =>
      intro c hc
      rw [limitClause, String.toList_append] at hc
      obtain rfl : ' ' = c := Option.some.inj hc
      decide

theorem dollar_notMem_limitClause (limit : Option Nat) :
    '$' ∉ (limitClause limit).toList := by
  cases limit with
  | none => simp [limitClause]
  | some n =>
      rw [limitClause, String.toList_append, List.mem_append, not_or]
      exact ⟨by decide, dollar_notMem_toString n⟩

/-- The text around the schema name brings no placeholder. -/
theorem SchemaName.dollar_notMem (schema : SchemaName) : '$' ∉ schema.name.toList :=
  fun hmem => (schema.plain '$' hmem).2 rfl

/-- **Each placeholder of the `UPDATE` has its value and each value its
placeholder.** -/
theorem deleteMatchingTuplesStatement_wellBound (schema : SchemaName) (filter : TupleFilter)
    (txId : Int) : (deleteMatchingTuplesStatement schema filter txId).WellBound := by
  obtain ⟨hidx, hused⟩ := deleteBuilder_numbered filter txId
  have hplaceholders :
      placeholders (deleteMatchingTuplesStatement schema filter txId).text.toList =
        [2] ++ (deleteBuilder filter).conditions.filterMap Condition.placeholder := by
    have htext : (deleteMatchingTuplesStatement schema filter txId).text.toList =
        ("UPDATE ".toList ++ schema.name.toList ++
          ".relation_tuples SET deleted_tx_id = ".toList) ++
            '$' :: ((toString 2).toList ++ (" WHERE ".toList ++
              ((deleteBuilder filter).whereClause.toList ++ []))) := by
      have htwo : Nat.toDigits 10 2 = ['2'] := rfl
      simp [deleteMatchingTuplesStatement, htwo]
    have hbefore : '$' ∉ "UPDATE ".toList ++ schema.name.toList ++
        ".relation_tuples SET deleted_tx_id = ".toList := by
      simp only [List.mem_append, not_or]
      exact ⟨⟨by decide, schema.dollar_notMem⟩, by decide⟩
    rw [htext, placeholders_append hbefore,
      placeholders_dollar 2 (by rintro c ⟨⟩; decide), placeholders_append (by decide),
      Builder.whereClause, columns.placeholders_conjunction _ (by simp [EndsNumber])]
    simp [placeholders]
  intro k
  rw [hplaceholders, hused k, hidx]
  show _ ∧ _ < (deleteMatchingTuplesStatement schema filter txId).binds.length + 1 ↔ _
  omega

/-- **Each placeholder of the `SELECT` has its value and each value its
placeholder.** -/
theorem readTuplesStatement_wellBound (schema : SchemaName) (filter : TupleFilter)
    (snapshot : Int) (limit : Option Nat) :
    (readTuplesStatement schema filter snapshot limit).WellBound := by
  obtain ⟨hidx, hused⟩ := readBuilder_numbered filter snapshot
  have hplaceholders :
      placeholders (readTuplesStatement schema filter snapshot limit).text.toList =
        (readBuilder filter).conditions.filterMap Condition.placeholder := by
    have hhead : '$' ∉ readTuplesHead.toList := by decide +kernel
    have hbefore : '$' ∉ readTuplesHead.toList ++ schema.name.toList ++
        ".relation_tuples\n           WHERE ".toList := by
      simp only [List.mem_append, not_or]
      exact ⟨⟨hhead, schema.dollar_notMem⟩, by simp⟩
    have htext : (readTuplesStatement schema filter snapshot limit).text.toList =
        (readTuplesHead.toList ++ schema.name.toList ++
          ".relation_tuples\n           WHERE ".toList) ++
            ((readBuilder filter).whereClause.toList ++ (limitClause limit).toList) := by
      simp [readTuplesStatement]
    rw [htext, placeholders_append hbefore, Builder.whereClause,
      columns.placeholders_conjunction _ (limitClause_endsNumber limit),
      placeholders_eq_nil (dollar_notMem_limitClause limit), List.append_nil]
  intro k
  rw [hplaceholders, ← List.nil_append (List.filterMap _ _), hused k, hidx]
  show _ ∧ _ < (readTuplesStatement schema filter snapshot limit).binds.length + 1 ↔ _
  omega

/-! ## The clauses, read from the texts -/

/-- The name of the table is one word, and no keyword. -/
theorem SchemaName.words_table (schema : SchemaName) :
    words (schema.name.toList ++ ".relation_tuples".toList) =
      [schema.name.toList ++ ".relation_tuples".toList] := by
  apply words_eq_singleton
  · simp
  · intro c hc
    rcases List.mem_append.mp hc with hc | hc
    · exact (schema.plain c hc).1
    · exact notBlank_of_any (by decide) c hc

theorem SchemaName.table_ne_keyword (schema : SchemaName) (keyword : Word)
    (h : '.' ∉ keyword) : keyword ≠ schema.name.toList ++ ".relation_tuples".toList := by
  rintro rfl
  exact h (List.mem_append_right _ (by decide))

theorem words_deleteMatchingTuples (schema : SchemaName) (filter : TupleFilter) (txId : Int) :
    words (deleteMatchingTuplesStatement schema filter txId).text.toList =
      ["UPDATE".toList, schema.name.toList ++ ".relation_tuples".toList, "SET".toList,
        "deleted_tx_id".toList, "=".toList, "$2".toList] ++
      "WHERE".toList :: (words (deleteBuilder filter).whereClause.toList ++ []) := by
  have htext : (deleteMatchingTuplesStatement schema filter txId).text.toList =
      "UPDATE".toList ++ ' ' :: ((schema.name.toList ++ ".relation_tuples".toList) ++
        ' ' :: ("SET deleted_tx_id = $2 WHERE".toList ++
          ' ' :: (deleteBuilder filter).whereClause.toList)) := by
    simp [deleteMatchingTuplesStatement]
  have hset : words "SET deleted_tx_id = $2 WHERE".toList =
      ["SET".toList, "deleted_tx_id".toList, "=".toList, "$2".toList, "WHERE".toList] := by
    decide
  have hupdate : words "UPDATE".toList = ["UPDATE".toList] := by decide
  rw [htext, words_append_blank rfl, words_append_blank rfl, words_append_blank rfl,
    schema.words_table, hset, hupdate, List.append_nil]
  rfl

/-- The words of `SELECT … FROM`. -/
def readTuplesWords : List Word :=
  ["SELECT".toList, "object_type,".toList, "object_id,".toList, "relation,".toList,
    "subject_type,".toList, "subject_id,".toList, "subject_relation".toList, "FROM".toList]

theorem words_readTuples (schema : SchemaName) (filter : TupleFilter) (snapshot : Int)
    (limit : Option Nat) :
    words (readTuplesStatement schema filter snapshot limit).text.toList =
      readTuplesWords ++ [schema.name.toList ++ ".relation_tuples".toList] ++
      "WHERE".toList :: (words (readBuilder filter).whereClause.toList ++
        words (limitClause limit).toList) := by
  have hhead : words readTuplesHead.toList.dropLast = readTuplesWords := by decide +kernel
  have hblank : readTuplesHead.toList = readTuplesHead.toList.dropLast ++ [' '] := by
    decide +kernel
  have hwhere : words "           WHERE".toList = ["WHERE".toList] := by decide
  have hclause : words ((readBuilder filter).whereClause.toList ++
      (limitClause limit).toList) = words (readBuilder filter).whereClause.toList ++
        words (limitClause limit).toList := by
    cases limit with
    | none => simp [limitClause, words_nil]
    | some n =>
        rw [limitClause, String.toList_append]
        exact (words_append_blank rfl _ _).trans
          (congrArg _ (words_blank_cons rfl _).symm)
  have htext : (readTuplesStatement schema filter snapshot limit).text.toList =
      readTuplesHead.toList.dropLast ++ ' ' ::
        ((schema.name.toList ++ ".relation_tuples".toList) ++
          '\n' :: ("           WHERE".toList ++ ' ' :: ((readBuilder filter).whereClause.toList ++
            (limitClause limit).toList))) := by
    rw [List.append_cons, ← hblank]
    simp [readTuplesStatement]
  rw [htext, words_append_blank rfl, words_append_blank rfl, words_append_blank rfl, hhead,
    schema.words_table, hwhere, hclause, List.append_assoc]
  rfl

/-- The text of the `UPDATE` holds the conditions that were collected, and sets
`deleted_tx_id` to the value of `$2`. -/
theorem read_deleteMatchingTuples (schema : SchemaName) (filter : TupleFilter) (txId : Int) :
    columns.readWhere (deleteMatchingTuplesStatement schema filter txId).text =
        some (deleteBuilder filter).conditions ∧
      columns.readSet (deleteMatchingTuplesStatement schema filter txId).text =
        some (.deletedTxId, 2) := by
  have hwords := words_deleteMatchingTuples schema filter txId
  refine ⟨?_, ?_⟩
  · refine columns.readWhere_of_words ?_ hwords ?_ (by simp)
    · exact Builder.conditions_pushFilter_ne_nil (List.cons_ne_nil _ _) filter
    · have htable := schema.table_ne_keyword "WHERE".toList (by decide)
      simp only [List.mem_cons, List.not_mem_nil, or_false, not_or]
      exact ⟨by decide, htable, by decide, by decide, by decide, by decide⟩
  · have hset : clause "SET".toList "WHERE".toList
        (words (deleteMatchingTuplesStatement schema filter txId).text.toList) =
          ["deleted_tx_id".toList, "=".toList, "$2".toList] := by
      rw [hwords]
      refine @clause_eq _ _ ["UPDATE".toList, schema.name.toList ++ ".relation_tuples".toList]
        ["deleted_tx_id".toList, "=".toList, "$2".toList] _ ?_ (by decide)
        (by rintro w ⟨⟩; rfl)
      have htable := schema.table_ne_keyword "SET".toList (by decide)
      simp only [List.mem_cons, List.not_mem_nil, or_false, not_or]
      exact ⟨by decide, htable⟩
    rw [Columns.readSet, hset]
    decide

/-- The text of the `SELECT` holds the conditions that were collected. -/
theorem read_readTuples (schema : SchemaName) (filter : TupleFilter) (snapshot : Int)
    (limit : Option Nat) :
    columns.readWhere (readTuplesStatement schema filter snapshot limit).text =
      some (readBuilder filter).conditions := by
  refine columns.readWhere_of_words ?_ (words_readTuples schema filter snapshot limit) ?_ ?_
  · exact Builder.conditions_pushFilter_ne_nil (List.cons_ne_nil _ _) filter
  · have htable := schema.table_ne_keyword "WHERE".toList (by decide)
    rw [List.mem_append, not_or]
    exact ⟨by decide, by simpa using htable⟩
  · cases limit with
    | none => simp [limitClause, words_nil]
    | some n =>
        have hlimit : words (limitClause (some n)).toList =
            "LIMIT".toList :: words (toString n).toList := by
          have hkeyword : words "LIMIT".toList = ["LIMIT".toList] := by decide
          have htext : (limitClause (some n)).toList =
              ' ' :: ("LIMIT".toList ++ ' ' :: (toString n).toList) := by
            simp [limitClause]
          rw [htext, words_blank_cons rfl, words_append_blank rfl, hkeyword]
          rfl
        rw [hlimit]
        rintro w ⟨⟩
        rfl

/-! ## What the statements mean -/

/-- The clause of the `SELECT`, on the values of any row. -/
theorem readClause_iff (filter : TupleFilter) (snapshot : Int) (t : Tuple)
    (created deleted : Int) :
    selects (rowValue t created deleted) (.int snapshot :: (readBuilder filter).binds)
        (readBuilder filter).conditions = true ↔
      filter.matches t = true ∧ created ≤ snapshot ∧ snapshot < deleted := by
  have h := Builder.accepts_pushFilter (readBuilder_bound (.int snapshot)) filter t created
    deleted
  have hstart : Builder.Accepts [.int snapshot]
      ⟨[.le .createdTxId 1, .gt .deletedTxId 1], [], 2⟩ (rowValue t created deleted) ↔
        created ≤ snapshot ∧ snapshot < deleted := by
    simp [Builder.Accepts, selects_iff, Condition.eval, bound, rowValue, compareWith_int_le,
      compareWith_int_gt]
  rw [hstart, and_comm] at h
  exact h

/-- The clause of the `UPDATE`, on the values of any row. -/
theorem deleteClause_iff (filter : TupleFilter) (txId : Int) (t : Tuple)
    (created deleted : Int) :
    selects (rowValue t created deleted)
        (.int ACTIVE_TX_ID :: .int txId :: (deleteBuilder filter).binds)
        (deleteBuilder filter).conditions = true ↔
      filter.matches t = true ∧ deleted = ACTIVE_TX_ID := by
  have h := Builder.accepts_pushFilter (deleteBuilder_bound (.int txId)) filter t created
    deleted
  have hstart : Builder.Accepts [.int ACTIVE_TX_ID, .int txId] ⟨[.eq .deletedTxId 1], [], 3⟩
      (rowValue t created deleted) ↔ deleted = ACTIVE_TX_ID := by
    simp only [Builder.Accepts, selects_iff, List.forall_mem_singleton, Condition.eval]
    exact compareWith_int_eq
  rw [hstart, and_comm] at h
  exact h

/-- Setting `deleted_tx_id` leaves the tuple and `created_tx_id` alone. -/
theorem update_rowValue (t : Tuple) (created deleted txId : Int) :
    Function.update (rowValue t created deleted) .deletedTxId (.int txId) =
      rowValue t created txId := by
  funext column
  cases column <;> rfl

theorem evalWhere_eq {st : Statement} {conditions : List (Condition Column)}
    (h : columns.readWhere st.text = some conditions) (row : Column → Value) :
    ∃ truth, st.evalWhere columns row = some truth ∧
      (truth = some true ↔ selects row st.binds conditions = true) := by
  refine ⟨conjunction row st.binds conditions, ?_, ?_⟩
  · rw [Statement.evalWhere, h, Option.map_some]
  · rw [selects, decide_eq_true_eq]

/-- The `UPDATE` of a filter, on rows of any tuples and counters. -/
theorem update_deleteMatchingTuples (schema : SchemaName) (filter : TupleFilter) (txId : Int)
    (table : List (Tuple × Int × Int)) :
    (deleteMatchingTuplesStatement schema filter txId).update columns
        (table.map fun (t, created, deleted) => rowValue t created deleted) =
      some (table.map fun (t, created, deleted) =>
        if filter.matches t = true ∧ deleted = ACTIVE_TX_ID then rowValue t created txId
        else rowValue t created deleted) := by
  obtain ⟨hwhere, hset⟩ := read_deleteMatchingTuples schema filter txId
  rw [Statement.update, hset, hwhere]
  refine congrArg some ?_
  rw [List.map_map]
  apply List.map_congr_left
  rintro ⟨t, created, deleted⟩ -
  have hselects := deleteClause_iff filter txId t created deleted
  show (if selects (rowValue t created deleted) (.int ACTIVE_TX_ID :: .int txId :: _) _ = true
      then Function.update (rowValue t created deleted) .deletedTxId (.int txId)
      else rowValue t created deleted) = if _ then rowValue t created txId else _
  by_cases h : filter.matches t = true ∧ deleted = ACTIVE_TX_ID
  · rw [if_pos (hselects.mpr h), if_pos h]
    exact update_rowValue t created deleted txId
  · rw [if_neg (mt hselects.mp h), if_neg h]

/-- **The filter statements mean `TupleFilter::matches`.**  In both texts each
placeholder has a bound value at its position and each bound value is used.  On a
row of any tuple and any counters, the `WHERE` clause of the `SELECT` is true
exactly when the filter matches and the row is visible at the snapshot, and that
of the `UPDATE` exactly when the filter matches and the row is active; those rows
and no others get `tx_id`. -/
theorem statements_mean_matches (schema : SchemaName) (filter : TupleFilter) :
    (∀ (snapshot : Int) (limit : Option Nat),
      (readTuplesStatement schema filter snapshot limit).WellBound ∧
      ∀ (t : Tuple) (created deleted : Int), ∃ truth,
        (readTuplesStatement schema filter snapshot limit).evalWhere columns
          (rowValue t created deleted) = some truth ∧
        (truth = some true ↔
          filter.matches t = true ∧ created ≤ snapshot ∧ snapshot < deleted)) ∧
    (∀ txId : Int,
      (deleteMatchingTuplesStatement schema filter txId).WellBound ∧
      (∀ (t : Tuple) (created deleted : Int), ∃ truth,
        (deleteMatchingTuplesStatement schema filter txId).evalWhere columns
          (rowValue t created deleted) = some truth ∧
        (truth = some true ↔ filter.matches t = true ∧ deleted = ACTIVE_TX_ID)) ∧
      ∀ table : List (Tuple × Int × Int),
        (deleteMatchingTuplesStatement schema filter txId).update columns
            (table.map fun (t, created, deleted) => rowValue t created deleted) =
          some (table.map fun (t, created, deleted) =>
            if filter.matches t = true ∧ deleted = ACTIVE_TX_ID then rowValue t created txId
            else rowValue t created deleted)) := by
  refine ⟨?_, ?_⟩
  · intro snapshot limit
    refine ⟨readTuplesStatement_wellBound schema filter snapshot limit, ?_⟩
    intro t created deleted
    obtain ⟨truth, heval, htrue⟩ := evalWhere_eq
      (read_readTuples schema filter snapshot limit) (rowValue t created deleted)
    exact ⟨truth, heval, htrue.trans (readClause_iff filter snapshot t created deleted)⟩
  · intro txId
    refine ⟨deleteMatchingTuplesStatement_wellBound schema filter txId, ?_,
      update_deleteMatchingTuples schema filter txId⟩
    intro t created deleted
    obtain ⟨truth, heval, htrue⟩ := evalWhere_eq
      (read_deleteMatchingTuples schema filter txId).1 (rowValue t created deleted)
    exact ⟨truth, heval, htrue.trans (deleteClause_iff filter txId t created deleted)⟩

/-- The rows `read_tuples` selects are those for which the clause of its text is
true. -/
theorem readSelects_eq_evalWhere (schema : SchemaName) (filter : TupleFilter) (snapshot : Nat)
    (limit : Option Nat) (r : Row) : readSelects filter snapshot r = true ↔
      (readTuplesStatement schema filter snapshot limit).evalWhere columns r.value =
        some (some true) := by
  obtain ⟨truth, heval, htrue⟩ := evalWhere_eq
    (read_readTuples schema filter snapshot limit) r.value
  rw [heval, Option.some_inj]
  exact htrue.symm

/-- **The store's delete runs this statement**: when the unique constraint holds
afterwards, its rows are those of the `UPDATE`. -/
theorem deleteMatchingTuples_eq_update (schema : SchemaName) {filter : TupleFilter}
    {txId : Nat} {rows updated : List Row}
    (h : deleteMatchingTuples filter txId rows = some updated) :
    (deleteMatchingTuplesStatement schema filter txId).update columns (rows.map Row.value) =
      some (updated.map Row.value) := by
  obtain ⟨hwhere, hset⟩ := read_deleteMatchingTuples schema filter txId
  have hupdated : updated = rows.map fun r =>
      if deleteSelects filter txId r then { r with deletedTxId := txId } else r := by
    rw [deleteMatchingTuples] at h
    split at h
    · exact (Option.some.inj h).symm
    · cases h
  rw [Statement.update, hset, hwhere, hupdated]
  refine congrArg some ?_
  rw [List.map_map, List.map_map]
  apply List.map_congr_left
  intro r _
  show (if deleteSelects filter txId r = true then _ else _) = Row.value (if _ then _ else _)
  by_cases hr : deleteSelects filter txId r = true
  · rw [if_pos hr, if_pos hr]
    show Function.update r.value .deletedTxId (.int txId) = _
    rw [r.value_eq, update_rowValue, Row.value_eq]
    rfl
  · rw [if_neg hr, if_neg hr]

end Kraalzibar.Postgres
