/-!
Comment removal. A comment is written between `(*` and `*)`, comments nest, and a
semicolon that follows a comment belongs to it. Line breaks inside a comment stay, so
every position in the remaining text keeps its line number.
-/

namespace SattLine.Source

/-- Where the scan stands. `code true` is the stretch of blanks directly after a comment;
`comment n` is a place inside `n + 1` open comments. -/
inductive Region where
  | code (afterComment : Bool)
  | quoted (quote : Char)
  | comment (outer : Nat)
  deriving DecidableEq, Repr

/-- Blanks that may stand between a comment and the semicolon that closes it. -/
def isBlank (c : Char) : Bool :=
  c == ' ' || c == '\t' || c == '\r' || c == '\n'

def isLineBreak (c : Char) : Bool :=
  c == '\n' || c == '\r'

/-- Removes the comments of a text whose first character lies in the given region.

A quoted text starts at either quote mark and ends at the same mark, at a line break, or at
the end. Inside it a doubled mark and a backslash with its next character are copied. -/
def stripFrom : Region → List Char → List Char
  | _, [] => []
  | .code _, '(' :: '*' :: inside => stripFrom (.comment 0) inside
  | .code after, c :: rest =>
    if after && isBlank c then c :: stripFrom (.code true) rest
    else if after && c == ';' then stripFrom (.code false) rest
    else if c == '"' || c == '\'' then c :: stripFrom (.quoted c) rest
    else c :: stripFrom (.code false) rest
  | .quoted _, [c] => [c]
  | .quoted quote, c :: d :: rest =>
    if isLineBreak c then c :: stripFrom (.code false) (d :: rest)
    else if c == quote then
      if d == quote then c :: d :: stripFrom (.quoted quote) rest
      else c :: stripFrom (.code false) (d :: rest)
    else if c == '\\' then c :: d :: stripFrom (.quoted quote) rest
    else c :: stripFrom (.quoted quote) (d :: rest)
  | .comment outer, '(' :: '*' :: inside => stripFrom (.comment (outer + 1)) inside
  | .comment 0, '*' :: ')' :: behind => stripFrom (.code true) behind
  | .comment (outer + 1), '*' :: ')' :: behind => stripFrom (.comment outer) behind
  | .comment outer, c :: rest =>
    if isLineBreak c then c :: stripFrom (.comment outer) rest
    else stripFrom (.comment outer) rest

def stripComments (text : String) : String :=
  String.ofList (stripFrom (.code false) text.toList)

end SattLine.Source
