/-!
Cutting a text at a character.
-/

namespace SattLine.Text

/-- The stretches between the occurrences of a character; there is always at least one. -/
def stretches (separator : Char) : List Char → List (List Char)
  | [] => [[]]
  | c :: rest =>
    if c == separator then [] :: stretches separator rest
    else
      match stretches separator rest with
      | [] => [[c]]
      | first :: others => (c :: first) :: others

def splitAtChar (separator : Char) (text : String) : List String :=
  (stretches separator text.toList).map String.ofList

/-- The text before the first occurrence of a character, or the whole text. -/
def before (separator : Char) (text : String) : String :=
  String.ofList (text.toList.takeWhile (· != separator))

end SattLine.Text
