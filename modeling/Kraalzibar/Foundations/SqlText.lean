import Kraalzibar.Foundations.Sql
import Mathlib.Data.List.TakeWhile
import Mathlib.Logic.Function.Basic

/-!
# The text of conjunctive SQL statements

A statement is sent as a text with placeholders `$1`, `$2`, … and a list of bound
values.  This file says what such a text means: its words are read back, the
clause after a keyword is taken out of them, and a `WHERE` clause is a
conjunction of three-word conditions.

* `Condition.text` — how a condition is written;
* `Columns.readWhere` / `Columns.readSet` — the clauses, read from the words;
* `Statement.evalWhere` / `Statement.update` — a statement on rows;
* `readWhere_of_words` — a written conjunction reads back as its conditions;
* `placeholders_conjunction` — the text of a conjunction holds the placeholders
  of its conditions and no others.
-/

namespace Foundations.Sql

abbrev Word := List Char

/-- The words of a text: what stands between blanks. -/
def words (text : List Char) : List Word :=
  (text.splitOnP Char.isWhitespace).filter fun w => !w.isEmpty

def readNat (digits : Word) : Option Nat :=
  if digits ≠ [] ∧ digits.all Char.isDigit then some (Nat.ofDigitChars 10 digits 0) else none

/-- The word `$k`. -/
def readPlaceholder : Word → Option Nat
  | '$' :: digits => readNat digits
  | _ => none

/-- The placeholders of a text, from left to right: every `$` in it, wherever it
stands, with the digits that follow. -/
def placeholders : List Char → List Nat
  | [] => []
  | c :: text =>
      if c = '$' then Nat.ofDigitChars 10 (text.takeWhile Char.isDigit) 0 :: placeholders text
      else placeholders text

/-- The words after `keyword`, up to the word `stop` if there is one. -/
def clause (keyword stop : Word) (ws : List Word) : List Word :=
  ((ws.dropWhile (· ≠ keyword)).drop 1).takeWhile (· ≠ stop)

/-- The columns of a table under their names.  Names are in lower case, so that
no name is a keyword. -/
structure Columns (Column : Type) where
  name : Column → String
  read : Word → Option Column
  read_name : ∀ c, read (name c).toList = some c
  name_lower : ∀ c, (name c).toList ≠ [] ∧
    (name c).toList.all (fun ch => ch.isLower || ch == '_') = true

/-- A statement with its bound values. -/
structure Statement where
  text : String
  binds : List Value

variable {Column : Type} (cols : Columns Column)

/-- A condition as it stands in a statement. -/
def Condition.text : Condition Column → String
  | .eq column k => cols.name column ++ " = $" ++ toString k
  | .le column k => cols.name column ++ " <= $" ++ toString k
  | .gt column k => cols.name column ++ " > $" ++ toString k
  | .isNull column => cols.name column ++ " IS NULL"

namespace Columns

/-- A condition is three words: a column, an operator and an operand. -/
def readCondition : List Word → Option (Condition Column)
  | [column, operator, operand] => do
      let c ← cols.read column
      if operator = "=".toList then (readPlaceholder operand).map (.eq c)
      else if operator = "<=".toList then (readPlaceholder operand).map (.le c)
      else if operator = ">".toList then (readPlaceholder operand).map (.gt c)
      else if operator = "IS".toList ∧ operand = "NULL".toList then some (.isNull c)
      else none
  | _ => none

/-- The conditions of `WHERE c1 AND c2 AND … [LIMIT n]`. -/
def readWhere (text : String) : Option (List (Condition Column)) :=
  ((clause "WHERE".toList "LIMIT".toList (words text.toList)).splitOn "AND".toList).mapM
    cols.readCondition

/-- The column and the placeholder of `SET column = $k WHERE …`. -/
def readSet (text : String) : Option (Column × Nat) :=
  match clause "SET".toList "WHERE".toList (words text.toList) with
  | [column, operator, operand] => do
      if operator = "=".toList then
        let c ← cols.read column
        let k ← readPlaceholder operand
        return (c, k)
      else none
  | _ => none

end Columns

namespace Statement

/-- Every placeholder of the text has a bound value at its position, and every
bound value has a placeholder. -/
def WellBound (st : Statement) : Prop :=
  ∀ k, k ∈ placeholders st.text.toList ↔ 0 < k ∧ k ≤ st.binds.length

/-- The truth value of the `WHERE` clause on a row; `none` when the text has no
such clause. -/
def evalWhere (st : Statement) (row : Column → Value) : Option Truth :=
  (cols.readWhere st.text).map (conjunction row st.binds)

/-- An `UPDATE` of one column: the rows for which the `WHERE` clause is true get
the bound value, the others stay. -/
def update [DecidableEq Column] (st : Statement) (table : List (Column → Value)) :
    Option (List (Column → Value)) := do
  let (column, k) ← cols.readSet st.text
  let conditions ← cols.readWhere st.text
  return table.map fun row =>
    if selects row st.binds conditions then Function.update row column (bound st.binds k)
    else row

end Statement

/-! ## Words -/

/-- **Words split at a blank.** -/
theorem words_append_blank {b : Char} (hb : b.isWhitespace = true) (text more : List Char) :
    words (text ++ b :: more) = words text ++ words more := by
  unfold words
  rw [List.splitOnP_append_cons _ _ hb, List.filter_append]

theorem words_blank_cons {b : Char} (hb : b.isWhitespace = true) (text : List Char) :
    words (b :: text) = words text :=
  words_append_blank hb [] text

theorem notBlank_of_any {w : Word} (h : w.any Char.isWhitespace = false) :
    ∀ c ∈ w, c.isWhitespace = false := by
  intro c hc
  exact Bool.eq_false_iff.mpr (List.any_eq_false.mp h c hc)

/-- A text without blanks is one word. -/
theorem words_eq_singleton {w : Word} (hne : w ≠ []) (h : ∀ c ∈ w, c.isWhitespace = false) :
    words w = [w] := by
  rw [words, List.splitOnP_eq_singleton h]
  simp [hne]

theorem words_nil : words [] = [] := rfl

/-- The words of joined texts are joined. -/
theorem words_intercalate_and (texts : List String) :
    words (String.intercalate " AND " texts).toList =
      ["AND".toList].intercalate (texts.map fun t => words t.toList) := by
  induction texts with
  | nil => simp [words_nil]
  | cons t texts ih =>
      cases texts with
      | nil => simp
      | cons t' texts =>
          have hjoin : (String.intercalate " AND " (t :: t' :: texts)).toList =
              t.toList ++ ' ' :: ("AND".toList ++
                ' ' :: (String.intercalate " AND " (t' :: texts)).toList) := by
            rw [String.intercalate_cons_cons]
            simp
          have hand : words "AND".toList = ["AND".toList] := by decide
          rw [hjoin, words_append_blank rfl, words_append_blank rfl, ih, hand]
          rfl

/-- The clause after a keyword ends at the next keyword. -/
theorem clause_eq {keyword stop : Word} {before body after : List Word}
    (hbefore : keyword ∉ before) (hbody : stop ∉ body)
    (hafter : ∀ w ∈ after.head?, w = stop) :
    clause keyword stop (before ++ keyword :: (body ++ after)) = body := by
  have hdrop : (before ++ keyword :: (body ++ after)).dropWhile (· ≠ keyword) =
      keyword :: (body ++ after) := by
    rw [List.dropWhile_append_of_pos]
    · simp
    · intro w hw
      have hne : w ≠ keyword := fun h => hbefore (h ▸ hw)
      simpa using hne
  have htake : (body ++ after).takeWhile (· ≠ stop) = body ++ after.takeWhile (· ≠ stop) := by
    apply List.takeWhile_append_of_pos
    intro w hw
    have hne : w ≠ stop := fun h => hbody (h ▸ hw)
    simpa using hne
  rw [clause, hdrop, List.drop_one, List.tail_cons, htake]
  cases after with
  | nil => simp
  | cons w after => simp [hafter w rfl]

/-! ## Numbers and placeholders -/

theorem toList_toString (k : Nat) : (toString k).toList = Nat.toDigits 10 k := by
  rw [Nat.toString_eq_repr, Nat.toList_repr]

theorem isDigit_of_mem_toString {k : Nat} {c : Char} (h : c ∈ (toString k).toList) :
    c.isDigit = true := by
  rw [toList_toString] at h
  exact Nat.isDigit_of_mem_toDigits (by decide) (by decide) h

theorem readPlaceholder_toDigits (k : Nat) :
    readPlaceholder ('$' :: Nat.toDigits 10 k) = some k := by
  have hdigits : Nat.toDigits 10 k ≠ [] ∧ (Nat.toDigits 10 k).all Char.isDigit = true := by
    refine ⟨List.ne_nil_of_length_pos Nat.length_toDigits_pos, ?_⟩
    exact List.all_eq_true.mpr fun c hc =>
      Nat.isDigit_of_mem_toDigits (by decide) (by decide) hc
  show readNat _ = _
  rw [readNat, if_pos hdigits, Nat.ofDigitChars_ten_toDigits]

/-- A text without `$` adds no placeholder. -/
theorem placeholders_append {text : List Char} (h : '$' ∉ text) (more : List Char) :
    placeholders (text ++ more) = placeholders more := by
  induction text with
  | nil => rfl
  | cons c text ih =>
      rw [List.mem_cons, not_or] at h
      rw [List.cons_append, placeholders, if_neg (Ne.symm h.1), ih h.2]

theorem placeholders_eq_nil {text : List Char} (h : '$' ∉ text) : placeholders text = [] := by
  simpa [placeholders] using placeholders_append h []

/-- A number of a statement ends where its digits end. -/
def EndsNumber (more : List Char) : Prop :=
  ∀ c ∈ more.head?, c.isDigit = false

theorem dollar_notMem_toString (k : Nat) : '$' ∉ (toString k).toList := by
  intro hmem
  exact absurd (isDigit_of_mem_toString hmem) (by decide)

/-- A written placeholder is found. -/
theorem placeholders_dollar (k : Nat) {more : List Char} (hmore : EndsNumber more) :
    placeholders ('$' :: ((toString k).toList ++ more)) = k :: placeholders more := by
  have htake : ((toString k).toList ++ more).takeWhile Char.isDigit = (toString k).toList := by
    rw [List.takeWhile_append_of_pos fun c hc => isDigit_of_mem_toString hc]
    cases more with
    | nil => simp
    | cons c more => simp [hmore c rfl]
  rw [placeholders, if_pos rfl, htake, toList_toString, Nat.ofDigitChars_ten_toDigits,
    ← toList_toString, placeholders_append (dollar_notMem_toString k)]

/-! ## Conditions -/

namespace Columns

/-- What a name does not contain. -/
theorem forall_mem_name (c : Column) :
    ∀ ch ∈ (cols.name c).toList, ch.isLower = true ∨ ch = '_' := by
  intro ch hch
  simpa using List.all_eq_true.mp (cols.name_lower c).2 ch hch

theorem name_notBlank (c : Column) : ∀ ch ∈ (cols.name c).toList, ch.isWhitespace = false := by
  intro ch hch
  rcases cols.forall_mem_name c ch hch with h | rfl
  · simp only [Char.isWhitespace, Bool.or_eq_false_iff, decide_eq_false_iff_not]
    refine ⟨⟨⟨?_, ?_⟩, ?_⟩, ?_⟩ <;> rintro rfl <;> revert h <;> decide
  · decide

theorem dollar_notMem_name (c : Column) : '$' ∉ (cols.name c).toList := by
  intro hmem
  rcases cols.forall_mem_name c _ hmem with h | h
  · revert h
    decide
  · revert h
    decide

/-- A word that begins with an upper-case letter is no name. -/
theorem name_ne_keyword (c : Column) {first : Char} {rest : List Char}
    (hfirst : first.isUpper = true) : (cols.name c).toList ≠ first :: rest := by
  intro heq
  rcases cols.forall_mem_name c first (by rw [heq]; exact List.mem_cons_self) with h | rfl
  · have hlower : (decide (97 ≤ first.val) && decide (first.val ≤ 122)) = true := h
    have hupper : decide (65 ≤ first.val ∧ first.val ≤ 90) = true := hfirst
    rw [Bool.and_eq_true, decide_eq_true_eq] at hlower
    have hlt := UInt32.le_trans hlower.1 (of_decide_eq_true hupper).2
    revert hlt
    decide
  · revert hfirst
    decide

end Columns

/-- The three words of a condition. -/
def Condition.words : Condition Column → List Word
  | .eq column k => [(cols.name column).toList, "=".toList, '$' :: (toString k).toList]
  | .le column k => [(cols.name column).toList, "<=".toList, '$' :: (toString k).toList]
  | .gt column k => [(cols.name column).toList, ">".toList, '$' :: (toString k).toList]
  | .isNull column => [(cols.name column).toList, "IS".toList, "NULL".toList]

namespace Columns

theorem notBlank_of_digit {c : Char} (h : c.isDigit = true) : c.isWhitespace = false := by
  simp only [Char.isDigit, Bool.and_eq_true, decide_eq_true_eq, ge_iff_le] at h
  simp only [Char.isWhitespace, Bool.or_eq_false_iff, decide_eq_false_iff_not]
  refine ⟨⟨⟨?_, ?_⟩, ?_⟩, ?_⟩ <;> rintro rfl <;> revert h <;> decide

/-- A name, an operator and an operand, written with blanks between them. -/
theorem words_three (c : Column) {operator operand : Word} (hop : operator ≠ [])
    (hop' : ∀ ch ∈ operator, ch.isWhitespace = false) (hoperand : operand ≠ [])
    (hoperand' : ∀ ch ∈ operand, ch.isWhitespace = false) :
    words ((cols.name c).toList ++ ' ' :: (operator ++ ' ' :: operand)) =
      [(cols.name c).toList, operator, operand] := by
  rw [words_append_blank rfl, words_append_blank rfl,
    words_eq_singleton (cols.name_lower c).1 (cols.name_notBlank c),
    words_eq_singleton hop hop', words_eq_singleton hoperand hoperand']
  rfl

/-- The words of a written condition. -/
theorem words_condition (c : Condition Column) :
    words (c.text cols).toList = c.words cols := by
  have hplaceholder : ∀ (column : Column) (k : Nat) {operator : Word}, operator ≠ [] →
      (∀ ch ∈ operator, ch.isWhitespace = false) →
      words ((cols.name column).toList ++
          ' ' :: (operator ++ ' ' :: '$' :: (toString k).toList)) =
        [(cols.name column).toList, operator, '$' :: (toString k).toList] := by
    intro column k operator hop hop'
    apply cols.words_three column hop hop' (List.cons_ne_nil _ _)
    intro ch hch
    rcases List.mem_cons.mp hch with rfl | hch
    · decide
    · exact notBlank_of_digit (isDigit_of_mem_toString hch)
  cases c with
  | eq column k =>
      rw [Condition.words, ← hplaceholder column k (by decide)
        (notBlank_of_any (by decide))]
      simp [Condition.text]
  | le column k =>
      rw [Condition.words, ← hplaceholder column k (by decide)
        (notBlank_of_any (by decide))]
      simp [Condition.text]
  | gt column k =>
      rw [Condition.words, ← hplaceholder column k (by decide)
        (notBlank_of_any (by decide))]
      simp [Condition.text]
  | isNull column =>
      rw [Condition.words, ← cols.words_three column (by decide)
        (notBlank_of_any (by decide)) (by decide) (notBlank_of_any (by decide))]
      simp [Condition.text]

/-- A written condition reads back as itself. -/
theorem readCondition_words (c : Condition Column) :
    cols.readCondition (c.words cols) = some c := by
  cases c <;>
    simp [readCondition, Condition.words, cols.read_name, readPlaceholder_toDigits]

/-- No word of a condition joins conditions or ends the clause. -/
theorem keyword_notMem_words (c : Condition Column) :
    "AND".toList ∉ c.words cols ∧ "LIMIT".toList ∉ c.words cols := by
  have hname : ∀ column, ['A', 'N', 'D'] ≠ (cols.name column).toList ∧
      ['L', 'I', 'M', 'I', 'T'] ≠ (cols.name column).toList := by
    intro column
    exact ⟨(cols.name_ne_keyword column (by decide)).symm,
      (cols.name_ne_keyword column (by decide)).symm⟩
  cases c with
  | eq column k => simp [Condition.words, hname column]
  | le column k => simp [Condition.words, hname column]
  | gt column k => simp [Condition.words, hname column]
  | isNull column => simp [Condition.words, hname column]

/-- The words of `c1 AND c2 AND …`. -/
theorem words_conjunction (conditions : List (Condition Column)) :
    words (String.intercalate " AND " (conditions.map fun c => c.text cols)).toList =
      ["AND".toList].intercalate (conditions.map fun c => c.words cols) := by
  rw [words_intercalate_and, List.map_map]
  congr 1
  exact List.map_congr_left fun c _ => cols.words_condition c

theorem limit_notMem_conjunction (conditions : List (Condition Column)) :
    "LIMIT".toList ∉ ["AND".toList].intercalate (conditions.map fun c => c.words cols) := by
  induction conditions with
  | nil => simp
  | cons c conditions ih =>
      have hc := (cols.keyword_notMem_words c).2
      cases conditions with
      | nil => simpa using hc
      | cons c' conditions =>
          rw [List.map_cons, List.map_cons, List.intercalate_cons_cons, ← List.map_cons,
            List.mem_append, List.mem_append, not_or, not_or]
          exact ⟨⟨hc, by decide⟩, ih⟩

/-- **A written conjunction reads back as its conditions**, whatever statement it
stands in: what counts are the words between `WHERE` and `LIMIT`. -/
theorem readWhere_of_words {text : String} {conditions : List (Condition Column)}
    {before after : List Word} (hne : conditions ≠ [])
    (hwords : words text.toList = before ++ "WHERE".toList ::
      (words (String.intercalate " AND " (conditions.map fun c => c.text cols)).toList ++ after))
    (hbefore : "WHERE".toList ∉ before) (hafter : ∀ w ∈ after.head?, w = "LIMIT".toList) :
    cols.readWhere text = some conditions := by
  have hsplit : (["AND".toList].intercalate
      (conditions.map fun c => c.words cols)).splitOn "AND".toList =
        conditions.map fun c => c.words cols := by
    apply List.splitOn_intercalate
    · intro ws hws
      obtain ⟨c, -, rfl⟩ := List.mem_map.mp hws
      exact (cols.keyword_notMem_words c).1
    · simpa using hne
  have hread : ∀ cs : List (Condition Column),
      (cs.map fun c => c.words cols).mapM cols.readCondition = some cs := by
    intro cs
    induction cs with
    | nil => rfl
    | cons c cs ih =>
        rw [List.map_cons, List.mapM_cons, cols.readCondition_words, ih]
        rfl
  rw [words_conjunction] at hwords
  rw [readWhere, hwords, clause_eq hbefore (cols.limit_notMem_conjunction conditions) hafter,
    hsplit, hread]

/-- The placeholder of a written condition. -/
theorem placeholders_condition (c : Condition Column) {more : List Char}
    (hmore : EndsNumber more) : placeholders ((c.text cols).toList ++ more) =
      c.placeholder.toList ++ placeholders more := by
  have hvalue : ∀ (column : Column) (k : Nat) (operator : List Char), '$' ∉ operator →
      placeholders ((cols.name column).toList ++
          (operator ++ '$' :: ((toString k).toList ++ more))) = k :: placeholders more := by
    intro column k operator hop
    rw [placeholders_append (cols.dollar_notMem_name column), placeholders_append hop,
      placeholders_dollar k hmore]
  cases c with
  | eq column k =>
      have h := hvalue column k " = ".toList (by decide)
      simpa [Condition.text, Condition.placeholder] using h
  | le column k =>
      have h := hvalue column k " <= ".toList (by decide)
      simpa [Condition.text, Condition.placeholder] using h
  | gt column k =>
      have h := hvalue column k " > ".toList (by decide)
      simpa [Condition.text, Condition.placeholder] using h
  | isNull column =>
      have hnull : '$' ∉ (cols.name column).toList ++ " IS NULL".toList := by
        rw [List.mem_append, not_or]
        exact ⟨cols.dollar_notMem_name column, by decide⟩
      rw [Condition.text, String.toList_append, placeholders_append hnull]
      rfl

/-- **The placeholders of a written conjunction** are those of its conditions. -/
theorem placeholders_conjunction (conditions : List (Condition Column)) {more : List Char}
    (hmore : EndsNumber more) :
    placeholders ((String.intercalate " AND "
        (conditions.map fun c => c.text cols)).toList ++ more) =
      conditions.filterMap Condition.placeholder ++ placeholders more := by
  induction conditions with
  | nil => simp
  | cons c conditions ih =>
      cases conditions with
      | nil =>
          have h := cols.placeholders_condition c hmore
          cases hc : c.placeholder <;> simpa [hc] using h
      | cons c' conditions =>
          rw [List.map_cons, List.map_cons, String.intercalate_cons_cons, ← List.map_cons,
            String.toList_append, String.toList_append, List.append_assoc, List.append_assoc,
            cols.placeholders_condition c (by rintro ch ⟨⟩; decide),
            placeholders_append (by decide), ih]
          cases hc : c.placeholder <;> simp [List.filterMap_cons, hc]

end Columns

end Foundations.Sql
