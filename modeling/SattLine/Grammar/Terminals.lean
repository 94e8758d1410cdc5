import SattLine.Syntax.Pattern

/-!
The terminals of the SattLine language, in the order in which they are tried.
-/

namespace SattLine.Grammar

open Syntax (Pattern)

structure Terminal where
  name : String
  pattern : Pattern
  deriving DecidableEq, Repr

/-- Words and marks with their terminal names. -/
def wordTerminals : List (String × String) := [
  ("ASSIGN_INIT_VALUE", ":="), ("CLIPPINGBOUNDS", "ClippingBounds"), ("MODULEDEF", "ModuleDef"),
   ("MODULECODE", "ModuleCode"), ("SUBMODULES", "SUBMODULES"), ("SEQUENCE", "SEQUENCE"),
   ("DOT", "."), ("IF", "IF"), ("THEN", "THEN"), ("ELSE", "ELSE"), ("ELSIF", "ELSIF"),
   ("ENDIF", "ENDIF"), ("OR", "OR"), ("AND", "AND"), ("NOT", "NOT"), ("LT", "<"), ("GT", ">"),
   ("EQ", "=="), ("NE", "<>"), ("LE", "<="), ("GE", ">="), ("PLUS", "+"), ("MINUS", "-"),
   ("MULTIPLY", "*"), ("DIVIDE", "/"), ("TYPEDEFINITIONS", "TYPEDEFINITIONS"),
   ("RECORD_KW", "RECORD"), ("ENDDEF_KW", "ENDDEF"), ("MODULEDEFINITION", "MODULEDEFINITION"),
   ("INVOCATION", "Invocation"), ("FRAME_MODULE", "Frame_Module"),
   ("MODULEPARAMETERS", "MODULEPARAMETERS"), ("LOCALVARIABLES", "LOCALVARIABLES"),
   ("GRAPHOBJECTS", "GraphObjects"), ("INTERACTOBJECTS", "InteractObjects"),
   ("DATECODE_PREFIX", "DateCode_"), ("GROUPCONN", "GroupConn"), ("SEQCONTROL", "SeqControl"),
   ("SEQTIMER", "SeqTimer"), ("COORD_KW", "COORD"), ("OBJSIZE", "OBJSIZE"),
   ("SEQINITSTEP", "SEQINITSTEP"), ("SEQSTEP", "SEQSTEP"), ("SEQTRANSITION", "SEQTRANSITION"),
   ("WAIT_FOR", "WAIT_FOR"), ("ENTERCODE", "ENTERCODE"), ("ACTIVECODE", "ACTIVECODE"),
   ("EXITCODE", "EXITCODE"), ("EQUATIONBLOCK", "EQUATIONBLOCK"), ("ENDSEQUENCE", "ENDSEQUENCE"),
   ("ALTERNATIVESEQ", "ALTERNATIVESEQ"), ("ALTERNATIVEBRANCH", "ALTERNATIVEBRANCH"),
   ("ENDALTERNATIVE", "ENDALTERNATIVE"), ("PARALLELBRANCH", "PARALLELBRANCH"),
   ("PARALLELSEQ", "PARALLELSEQ"), ("ENDPARALLEL", "ENDPARALLEL"), ("SEQBREAK", "SEQBREAK"),
   ("SEQFORK", "SEQFORK"), ("SUBSEQTRANSITION", "SUBSEQTRANSITION"),
   ("ENDSUBSEQTRANSITION", "ENDSUBSEQTRANSITION"), ("SUBSEQUENCE", "SUBSEQUENCE"),
   ("ENDSUBSEQUENCE", "ENDSUBSEQUENCE"), ("OPENSEQUENCE", "OPENSEQUENCE"),
   ("ENDOPENSEQUENCE", "ENDOPENSEQUENCE"), ("TWO_LAYERS", "Two_Layers_"),
   ("LAYERLIMIT", "LayerLimit_"), ("LAYER_PREFIX", "Layer_"), ("ZOOMLIMITS", "ZoomLimits"),
   ("ZOOMABLE", "Zoomable"), ("GRID", "Grid"), ("IGNOREMAXMODULE", "IgnoreMaxModule"),
   ("LAYERMODULE", "LayerModule"), ("LEFTALIGNED", "LeftAligned"),
   ("RIGHTALIGNED", "RightAligned"), ("TEXTOBJECT", "TextObject"),
   ("RECTANGLEOBJECT", "RectangleObject"), ("LINEOBJECT", "LineObject"),
   ("OVALOBJECT", "OvalObject"), ("POLYGONOBJECT", "PolygonObject"), ("SPLINE", "Spline"),
   ("POLYLINE", "Polyline"), ("CONNECTION", "Connection"), ("SEGMENTOBJECT", "SegmentObject"),
   ("COMPOSITEOBJECT", "CompositeObject"), ("CONNECTIONNODE", "ConnectionNode"),
   ("ENABLE_PREFIX", "Enable_"), ("VARNAME", "VarName"), ("VALUEFRACTION", "ValueFraction"),
   ("COLOUR0", "Colour0"), ("COLOUR1", "Colour1"), ("OUTLINECOLOUR", "OutlineColour"),
   ("FILLCOLOUR", "FillColour"), ("WIDTH_KEY", "Width_"), ("COLOURSTYLE", "ColourStyle"),
   ("INVAR_PREFIX", "InVar_"), ("COMBUT", "ComBut_"), ("OPTBUT", "OptBut_"),
   ("PROCEDUREINTERACT", "ProcedureInteract"), ("COMBUTPROC", "ComButProc_"),
   ("OUTVAR_PREFIX", "OutVar_"), ("CHECKBOX", "CheckBox_"), ("TEXTBOX", "TextBox_"),
   ("MENUINTERACT", "MenuInteract"), ("SIMPLEINTERACT", "SimpleInteract"),
   ("GLOBAL_KW", "GLOBAL"), ("CONST_KW", "Const"), ("STATE_KW", "State"),
   ("OPSAVE_KW", "OpSave"), ("SECURE_KW", "Secure"), ("DURATION_VALUE", "Duration_Value"),
   ("DEFAULT", "Default"), ("NEW", "New"), ("OLD", "Old"), ("LPAR", "("), ("RPAR", ")"),
   ("COMMA", ","), ("COLON", ":"), ("SEMICOLON", ";"), ("EQUAL", "="), ("__ANON_0", "=>"),
   ("SYMBOLMODULE", "SymbolModule"), ("NON_ZOOMABLE", "Non_Zoomable"), ("PRIVATE_", "PRIVATE_"),
   ("FORMAT_STRING_", "Format_String_")]

/-- Terminals whose lexemes can be of any length. -/
def unboundedTerminals : List Terminal :=
  [⟨"NAME", .name⟩, ⟨"REAL", .real⟩, ⟨"STRING", .quoted⟩, ⟨"STRING_CRLF", .openQuoted⟩,
    ⟨"SIGNED_INT", .integer⟩]

/-- Terminals with a longest lexeme. -/
def boundedTerminals : List Terminal :=
  [⟨"SL_DATECODE", .dateCode⟩, ⟨"BOOL", .truth⟩] ++
    wordTerminals.map fun (name, text) => ⟨name, .word text⟩

/-- Wider patterns go first, those of one width in the order of their names. -/
def Terminal.goesBefore (first second : Terminal) : Bool :=
  let width (terminal : Terminal) := terminal.pattern.width?.getD 0
  width first > width second || (width first == width second && first.name ≤ second.name)

/-- All terminals in the order in which they are tried. -/
def terminals : List Terminal :=
  unboundedTerminals ++ boundedTerminals.mergeSort Terminal.goesBefore

/-- The terminal that stands for the end of the text. -/
def endTerminal : String := "$END"

end SattLine.Grammar
