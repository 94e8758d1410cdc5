/-!
Tokens, syntax trees and the errors of reading a program.
-/

namespace SattLine.Syntax

/-- A lexeme with the name of its terminal and the place where it starts. Lines and columns
count from one. -/
structure Token where
  kind : String
  text : String
  line : Nat
  column : Nat
  deriving DecidableEq, Repr, Inhabited

inductive Tree where
  | leaf (token : Token)
  | node (label : String) (children : List Tree)
  deriving Inhabited

inductive SyntaxError where
  /-- The token cannot stand here. -/
  | unexpectedToken (token : Token)
  /-- No terminal of the language begins here. -/
  | unexpectedChar (char : Char) (line column : Nat)
  deriving Repr

end SattLine.Syntax
