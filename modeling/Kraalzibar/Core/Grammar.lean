import Kraalzibar.Foundations.Peg

/-!
# The schema grammar

The rules of `grammar.pest`, in the order they need each other.  `a ~ b` is
`Expr.seq`, `a | b` is `Expr.choice`, `@{ }` an atomic rule and `_{ }` a silent one.
-/

namespace Kraalzibar

open Foundations Peg

/-- `enum Rule`, which pest derives from the grammar.  Silent rules have no pairs. -/
inductive Rule where
  | EOI
  | schema
  | definition
  | definitionBody
  | relationDef
  | subjectTypeList
  | subjectTypeRef
  | permissionDef
  | permissionExpr
  | permissionOp
  | unionOp
  | intersectionOp
  | exclusionOp
  | permissionTerm
  | arrowExpr
  | identifier
  | whitespace
  | comment
deriving DecidableEq

namespace Grammar

/-- pest's built-in `NEWLINE`. -/
def newline : Expr Rule :=
  .choice (.str "\n") (.choice (.str "\r\n") (.str "\r"))

def isAsciiAlpha (c : Char) : Bool :=
  ('a' ≤ c && c ≤ 'z') || ('A' ≤ c && c ≤ 'Z')

def isAsciiAlphanumeric (c : Char) : Bool :=
  isAsciiAlpha c || ('0' ≤ c && c ≤ '9')

def whitespace : Expr Rule :=
  .rule .whitespace .silent (.choice (.str " ") (.choice (.str "\t") newline))

def comment : Expr Rule :=
  .rule .comment .silent
    (.seq (.str "//") (.star (.seq (.not newline) (.satisfy fun _ => true))))

def trivia : Trivia Rule :=
  { whitespace, comment }

def identifier : Expr Rule :=
  .rule .identifier .atomic
    (.seq (.satisfy isAsciiAlpha)
      (.star (.choice (.satisfy isAsciiAlphanumeric) (.str "_"))))

def arrowExpr : Expr Rule :=
  .rule .arrowExpr .normal (.seq identifier (.seq (.str "->") identifier))

def permissionTerm : Expr Rule :=
  .rule .permissionTerm .normal (.choice arrowExpr identifier)

def unionOp : Expr Rule := .rule .unionOp .normal (.str "+")

def intersectionOp : Expr Rule := .rule .intersectionOp .normal (.str "&")

def exclusionOp : Expr Rule := .rule .exclusionOp .normal (.str "-")

def permissionOp : Expr Rule :=
  .rule .permissionOp .silent (.choice unionOp (.choice intersectionOp exclusionOp))

def permissionExpr : Expr Rule :=
  .rule .permissionExpr .normal
    (.seq permissionTerm (.star (.seq permissionOp permissionTerm)))

def permissionDef : Expr Rule :=
  .rule .permissionDef .normal
    (.seq (.str "permission") (.seq identifier (.seq (.str "=") permissionExpr)))

def subjectTypeRef : Expr Rule :=
  .rule .subjectTypeRef .normal (.seq identifier (.opt (.seq (.str "#") identifier)))

def subjectTypeList : Expr Rule :=
  .rule .subjectTypeList .normal
    (.seq subjectTypeRef (.star (.seq (.str "|") subjectTypeRef)))

def relationDef : Expr Rule :=
  .rule .relationDef .normal
    (.seq (.str "relation") (.seq identifier (.seq (.str ":") subjectTypeList)))

def definitionBody : Expr Rule :=
  .rule .definitionBody .normal (.star (.choice relationDef permissionDef))

def definition : Expr Rule :=
  .rule .definition .normal
    (.seq (.str "definition") (.seq identifier
      (.seq (.str "\x7b") (.seq definitionBody (.str "\x7d")))))

def schema : Expr Rule :=
  .rule .schema .normal
    (.seq .startOfInput (.seq (.star definition) (.rule .EOI .normal .endOfInput)))

end Grammar

/-- `SchemaParser::parse(Rule::schema, input)` -/
def SchemaParser.parse (input : String) : Option (List (Pair Rule)) :=
  Peg.parse Grammar.trivia Grammar.schema input

end Kraalzibar
