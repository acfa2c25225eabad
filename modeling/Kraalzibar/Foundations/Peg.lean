import Mathlib.Data.List.Basic

/-!
# Parsing expression grammars

A grammar rule is an expression over its input: choices are ordered, a
repetition takes as much as it can, and a failed alternative gives its input
back.  A match returns the tree of the named rules it went through.

Outside atomic rules a grammar skips white space and comments between the parts
of a sequence and between the rounds of a repetition.

Rules are nested expressions, so a grammar whose rules refer to each other in a
circle cannot be written down, and matching is a function by recursion on the
expression.
-/

namespace Foundations

namespace Peg

/-- A named rule that matched, the text it covers, and the rules inside it. -/
inductive Pair (R : Type) where
  | mk (rule : R) (text : String) (inner : List (Pair R))

namespace Pair

variable {R : Type}

def rule : Pair R → R
  | .mk rule _ _ => rule

def text : Pair R → String
  | .mk _ text _ => text

def inner : Pair R → List (Pair R)
  | .mk _ _ inner => inner

end Pair

/-- What a rule adds to matching its expression: a normal rule records a pair, a
silent one nothing, and in an atomic one nothing is skipped and no inner pair
recorded. -/
inductive Kind where
  | normal
  | silent
  | atomic

inductive Expr (R : Type) where
  | str (literal : String)
  | satisfy (p : Char → Bool)
  | startOfInput
  | endOfInput
  | seq (first second : Expr R)
  | choice (first second : Expr R)
  | star (e : Expr R)
  | opt (e : Expr R)
  | not (e : Expr R)
  | rule (name : R) (kind : Kind) (e : Expr R)

/-- The text still to be matched, and how many characters came before it. -/
structure Input where
  position : Nat
  rest : List Char

namespace Input

def drop (input : Input) (n : Nat) : Input :=
  { position := input.position + n, rest := input.rest.drop n }

/-- The text between two positions of one input. -/
def upTo (start stop : Input) : String :=
  String.ofList (start.rest.take (start.rest.length - stop.rest.length))

end Input

/-- The pairs recorded by a match, and the input after it. -/
abbrev Match (R : Type) := List (Pair R) × Input

variable {R : Type}

/-- Up to `n` further rounds of a repetition.  A round that matches takes at
least one character, so `n` need not exceed the number of characters left. -/
def rounds (step : Input → Option (Match R)) : Nat → Input → Match R
  | 0, input => ([], input)
  | n + 1, input =>
      match step input with
      | none => ([], input)
      | some (pairs, input') =>
          let (pairs', input'') := rounds step n input'
          (pairs ++ pairs', input'')

namespace Expr

/-- Match an expression at the start of the input.  `skip` is what is passed over
between parts when the enclosing rule is not `atomic`. -/
def run (skip : Input → Input) (atomic : Bool) : Expr R → Input → Option (Match R)
  | .str literal, input =>
      if literal.toList.isPrefixOf input.rest then
        some ([], input.drop literal.toList.length)
      else none
  | .satisfy p, input =>
      match input.rest with
      | c :: _ => if p c then some ([], input.drop 1) else none
      | [] => none
  | .startOfInput, input => if input.position = 0 then some ([], input) else none
  | .endOfInput, input => if input.rest.isEmpty then some ([], input) else none
  | .seq first second, input =>
      match run skip atomic first input with
      | none => none
      | some (pairs, input') =>
          match run skip atomic second (if atomic then input' else skip input') with
          | none => none
          | some (pairs', input'') => some (pairs ++ pairs', input'')
  | .choice first second, input =>
      match run skip atomic first input with
      | some result => some result
      | none => run skip atomic second input
  | .star e, input =>
      match run skip atomic e input with
      | none => some ([], input)
      | some (pairs, input') =>
          let round := fun input => run skip atomic e (if atomic then input else skip input)
          let (pairs', input'') := rounds round input'.rest.length input'
          some (pairs ++ pairs', input'')
  | .opt e, input =>
      match run skip atomic e input with
      | some result => some result
      | none => some ([], input)
  | .not e, input =>
      match run skip atomic e input with
      | some _ => none
      | none => some ([], input)
  | .rule name .normal e, input =>
      match run skip atomic e input with
      | none => none
      | some (pairs, input') =>
          if atomic then some (pairs, input')
          else some ([.mk name (input.upTo input') pairs], input')
  | .rule _ .silent e, input => run skip atomic e input
  | .rule name .atomic e, input =>
      match run skip true e input with
      | none => none
      | some (pairs, input') =>
          if atomic then some (pairs, input')
          else some ([.mk name (input.upTo input') pairs], input')

end Expr

/-- The rules passed over between the parts of a non-atomic rule. -/
structure Trivia (R : Type) where
  whitespace : Expr R
  comment : Expr R

/-- White space, then any number of comments with white space after each. -/
def Trivia.skip (trivia : Trivia R) (input : Input) : Input :=
  let passed : Expr R :=
    .seq (.star trivia.whitespace) (.star (.seq trivia.comment (.star trivia.whitespace)))
  match passed.run id true input with
  | some (_, input') => input'
  | none => input

/-- The pairs of a match of `start` on a text, from its first character. -/
def parse (trivia : Trivia R) (start : Expr R) (text : String) : Option (List (Pair R)) :=
  (start.run trivia.skip false { position := 0, rest := text.toList }).map Prod.fst

end Peg

end Foundations
