import SattLine.Build.Rule

/-!
The wording of the reasons for which a source text gives no program.
-/

namespace SattLine

namespace Syntax.SyntaxError

def message : SyntaxError → String
  | .unexpectedToken t =>
    "Unexpected token Token(" ++ Text.quoted t.kind ++ ", " ++ Text.quoted t.text ++ ") at line " ++
      toString t.line ++ ", column " ++ toString t.column ++ "."
  | .unexpectedChar c line column =>
    "No terminal matches '" ++ String.singleton c ++ "' in the current parser context, at line " ++
      toString line ++ " col " ++ toString column

end Syntax.SyntaxError

namespace Fault

def message : Fault → String
  | .wrongType => "wrong kind of value"
  | .missingMember => "no such field"
  | .badValue => "value cannot be used"
  | .outOfRange => "list index out of range"
  | .missingKey => "no such entry"
  | .tooLarge => "int too large to convert to float"

end Fault

namespace Build

def Failure.message : Failure → String
  | .refused reason => reason.message
  | .fault cause => cause.message

def SourceError.message : SourceError → String
  | .syntactic error => error.message
  | .construction error =>
    "Error trying to process rule \"" ++ error.rule ++ "\":\n\n" ++ error.cause.message

end Build

end SattLine
