/-!
Texts in the order of their code points.
-/

namespace SattLine.Text

def sorted (texts : List String) : List String :=
  texts.mergeSort fun a b => !(b < a)

/-- A set of texts: each once, in order. -/
def sortedSet (texts : List String) : List String :=
  sorted texts.eraseDups

end SattLine.Text
