import SattLine.Grammar.Part

/-!
The rules of the SattLine language.
-/

namespace SattLine.Grammar

open SattLine.Grammar.Part

/-- The program: header lines, the base picture, its modules and module types. -/
def moduleRules : List Rule := [
  collapsing "start" [[rule "header_lines", rule "base_picture_module"]],
  node "syntax_version_line" [[token "STRING"]],
  node "original_file_date_line" [[token "STRING"]],
  node "program_date_line" [[token "STRING"]],
  node "header_lines" [[rule "syntax_version_line", rule "original_file_date_line",
    rule "program_date_line"]],
  node "module_header" [[token "NAME", token "INVOCATION", mark "LPAR", rule "invoke_coord",
    many [[rule "arguments"]], mark "RPAR"]],
  node "argument" [[token "ZOOMABLE"], [token "IGNOREMAXMODULE"], [token "LAYERMODULE"],
    [rule "layer_info"], [rule "enable"], [rule "zoomlimits"],
    [rule "interact_assign_variable"], [mark "SYMBOLMODULE"], [mark "NON_ZOOMABLE"]],
  node "arguments" [[rule "argument", many [[rule "argument"]]]],
  node "base_picture_module" [[rule "module_header", mark "COLON", token "MODULEDEFINITION",
    rule "sl_datecode", opt [[rule "frame_module"]], opt [[rule "scan_group"]],
    rule "base_module_body", token "ENDDEF_KW"]],
  node "base_module_body" [[opt [[rule "datatype_typedefinitions"]],
    opt [[rule "moduletype_definitions"]], rule "module_body"]],
  node "module_body" [[opt [[rule "moduleparameters"]], opt [[rule "localvariables"]],
    opt [[rule "submodules"]], rule "moduledef", opt [[rule "modulecode"]]]],
  node "invocation_new_module" [[rule "module_header", mark "COLON", token "MODULEDEFINITION",
    rule "sl_datecode", opt [[rule "frame_module"]], opt [[rule "scan_group"]],
    rule "module_body", token "ENDDEF_KW", opt [[rule "invocation_tail"]]]],
  node "invocation_module_type" [[rule "module_header", mark "COLON", token "NAME",
    opt [[rule "invocation_tail"]]]],
  collapsing "invocation_tail" [[opt [[mark "LPAR", rule "moduletype_par_list", mark "RPAR"]],
    mark "SEMICOLON"]],
  node "moduletype_par_list" [[rule "moduletype_par_transfer", many [[mark "COMMA",
    rule "moduletype_par_transfer"]]]],
  node "moduletype_par_transfer" [[rule "variable_name", mark "__ANON_0",
    opt [[token "GLOBAL_KW"]], opt [[token "DURATION_VALUE"]], oneOf [[rule "value"],
    [rule "variable_name"]]]],
  node "frame_module" [[mark "LPAR", token "FRAME_MODULE", mark "RPAR"]],
  node "scan_group" [[mark "LPAR", token "GROUPCONN", mark "EQUAL", opt [[token "GLOBAL_KW"]],
    rule "variable_name", mark "RPAR"]],
  node "invoke_coord" [[token "REAL", many [[rule "coord_tail"]], mark "COMMA", token "REAL",
    many [[rule "coord_tail"]], mark "COMMA", token "REAL", many [[rule "coord_tail"]],
    mark "COMMA", token "REAL", many [[rule "coord_tail"]], mark "COMMA", token "REAL",
    many [[rule "coord_tail"]]]],
  node "sl_datecode" [[token "DATECODE_PREFIX", token "SL_DATECODE"]]]

/-- Records, variables and their initial values, module types, submodules. -/
def declarationRules : List Rule := [
  node "datatype_typedefinitions" [[token "TYPEDEFINITIONS", some1 [[rule "record"]]]],
  node "record" [[token "NAME", opt [[token "STRING"]], mark "EQUAL", token "RECORD_KW",
    rule "sl_datecode", opt [[rule "variable_list"]], token "ENDDEF_KW"]],
  node "variable_item" [[token "NAME", opt [[token "STRING"], [token "STRING_CRLF"]]]],
  node "variable_group" [[rule "variable_item", many [[mark "COMMA", rule "variable_item"]],
    mark "COLON", opt [[token "GLOBAL_KW"]], token "NAME", many [[token "CONST_KW"],
    [token "STATE_KW"], [token "OPSAVE_KW"], [token "SECURE_KW"]], opt [[rule "opt_var_init"]],
    mark "SEMICOLON"]],
  node "variable_list" [[some1 [[rule "variable_group"]]]],
  node "opt_var_init" [[token "ASSIGN_INIT_VALUE", opt [[token "DURATION_VALUE"]],
    oneOf [[rule "value"], [token "DEFAULT"]]]],
  node "value" [[token "BOOL"], [token "REAL"], [token "STRING"], [token "SIGNED_INT"]],
  node "moduletype_definitions" [[token "TYPEDEFINITIONS",
    some1 [[rule "moduletype_definition"]]]],
  node "moduleparameters" [[token "MODULEPARAMETERS", rule "variable_list"]],
  node "localvariables" [[token "LOCALVARIABLES", rule "variable_list"]],
  node "moduletype_definition" [[token "NAME", mark "EQUAL", opt [[mark "PRIVATE_"]],
    token "MODULEDEFINITION", rule "sl_datecode", opt [[rule "scan_group"]], rule "module_body",
    token "ENDDEF_KW"]],
  node "submodules" [[token "SUBMODULES", some1 [[rule "invocation_new_module"],
    [rule "invocation_module_type"]]]]]

/-- Expressions from the loosest to the tightest level, statements, equation blocks. -/
def codeRules : List Rule := [
  node "modulecode" [[token "MODULECODE", some1 [[rule "sequence"], [rule "equationblock"]]]],
  collapsing "expression" [[rule "or_expression"]],
  collapsing "or_expression" [[rule "and_expression", many [[token "OR",
    rule "and_expression"]]]],
  collapsing "and_expression" [[rule "not_expression", many [[token "AND",
    rule "not_expression"]]]],
  collapsing "not_expression" [[token "NOT", rule "not_expression"],
    [rule "comparison_expression"]],
  labelled "comparison_expression" "compare" [[rule "additive_expression",
    opt [[oneOf [[token "LT"], [token "GT"], [token "EQ"], [token "NE"], [token "LE"],
    [token "GE"]], rule "additive_expression"]]]],
  collapsing "additive_expression" [[rule "multiplicative_expression",
    many [[oneOf [[token "PLUS"], [token "MINUS"]], rule "multiplicative_expression"]]]],
  collapsing "multiplicative_expression" [[rule "unary_expression",
    many [[oneOf [[token "MULTIPLY"], [token "DIVIDE"]], rule "unary_expression"]]]],
  collapsing "unary_expression" [[token "PLUS", rule "unary_expression"], [token "MINUS",
    rule "unary_expression"], [rule "term"]],
  node "ternary_if" [[token "IF", rule "expression", token "THEN", rule "expression",
    many [[token "ELSIF", rule "expression", token "THEN", rule "expression"]], token "ELSE",
    rule "expression", token "ENDIF"]],
  node "function_call" [[token "NAME", mark "LPAR", opt [[rule "argument_list"]], mark "RPAR"]],
  node "argument_list" [[rule "expression", many [[mark "COMMA", rule "expression"]]]],
  collapsing "term" [[rule "function_call"], [mark "LPAR", rule "expression", mark "RPAR"],
    [rule "ternary_if"], [rule "variable_name"], [rule "value"]],
  node "statement" [[rule "assignment_statement", mark "SEMICOLON"], [rule "function_call",
    mark "SEMICOLON"], [rule "if_statement", mark "SEMICOLON"]],
  node "assignment_statement" [[rule "variable_name", mark "EQUAL", rule "expression"]],
  node "if_statement" [[token "IF", rule "expression", token "THEN", many [[rule "statement"]],
    many [[token "ELSIF", rule "expression", token "THEN", many [[rule "statement"]]]],
    opt [[token "ELSE", many [[rule "statement"]]]], token "ENDIF"]],
  node "equationblock" [[token "EQUATIONBLOCK", token "NAME", rule "codeblock_coord",
    rule "objsizedef", opt [[rule "layer_info"]], mark "COLON", many [[rule "statement"]]]]]

def sequenceRules : List Rule := [
  node "sequence" [[oneOf [[token "SEQUENCE"], [token "OPENSEQUENCE"]], token "NAME",
    opt [[rule "seq_control_opt"]], rule "codeblock_coord", rule "objsizedef",
    opt [[rule "layer_info"]], rule "sequence_body", oneOf [[token "ENDSEQUENCE"],
    [token "ENDOPENSEQUENCE"]]]],
  node "sequence_body" [[many [[rule "seq_element"], [rule "seqparallel"],
    [rule "seqalternative"]]]],
  node "seq_element" [[rule "seqinitstep"], [rule "seqstep"], [rule "seqtransition"],
    [rule "seqtransitionsub"], [rule "seqsub"], [rule "seqfork"], [rule "seqbreak"]],
  node "seq_control_opt" [[mark "LPAR", opt [[token "SEQCONTROL"]], opt [[mark "COMMA"]],
    opt [[token "SEQTIMER"]], mark "RPAR"]],
  node "codeblock_coord" [[token "COORD_KW", token "REAL", mark "COMMA", token "REAL"]],
  node "objsizedef" [[token "OBJSIZE", token "REAL", mark "COMMA", token "REAL"]],
  node "seqinitstep" [[token "SEQINITSTEP", token "NAME", rule "code_blocks"]],
  node "seqstep" [[token "SEQSTEP", token "NAME", rule "code_blocks"]],
  node "seqtransition" [[token "SEQTRANSITION", opt [[token "NAME"]], token "WAIT_FOR",
    rule "expression"]],
  node "seqtransitionsub" [[token "SUBSEQTRANSITION", token "NAME", rule "sequence_body",
    token "ENDSUBSEQTRANSITION"]],
  node "seqalternative" [[token "ALTERNATIVESEQ", rule "sequence_body",
    some1 [[token "ALTERNATIVEBRANCH", rule "sequence_body"]], token "ENDALTERNATIVE"]],
  node "seqparallel" [[token "PARALLELSEQ", rule "sequence_body",
    some1 [[token "PARALLELBRANCH", rule "sequence_body"]], token "ENDPARALLEL"]],
  node "seqsub" [[token "SUBSEQUENCE", token "NAME", rule "sequence_body",
    token "ENDSUBSEQUENCE"]],
  node "seqfork" [[token "SEQFORK", token "NAME"]],
  node "seqbreak" [[token "SEQBREAK"]],
  node "code_blocks" [[opt [[rule "entercode"]], opt [[rule "activecode"]],
    opt [[rule "exitcode"]]]],
  node "entercode" [[token "ENTERCODE", many [[rule "statement"]]]],
  node "activecode" [[token "ACTIVECODE", many [[rule "statement"]]]],
  node "exitcode" [[token "EXITCODE", many [[rule "statement"]]]]]

/-- Module pictures: bounds, options, properties. -/
def pictureRules : List Rule := [
  node "moduledef" [[token "MODULEDEF", rule "clippingbounds", rule "moduledef_opts",
    opt [[rule "graph_objects"]], opt [[rule "interact_objects"]]]],
  node "clippingbounds" [[token "CLIPPINGBOUNDS", mark "EQUAL", rule "origo_size_pair"]],
  node "origo_size_pair" [[rule "coordinates", rule "coordinates"]],
  node "coordinates" [[mark "LPAR", token "REAL", many [[rule "coord_tail"]], mark "COMMA",
    token "REAL", many [[rule "coord_tail"]], mark "RPAR"]],
  collapsing "coord_tail" [[rule "coord_invar_tail"], [rule "coord_clippingbounds"]],
  node "coord_invar_tail" [[mark "COLON", oneOf [[token "INVAR_PREFIX"],
    [token "OUTVAR_PREFIX"]], rule "connected_variable"]],
  node "coord_clippingbounds" [[token "CLIPPINGBOUNDS", mark "EQUAL", rule "clip_values"]],
  node "clip_values" [[some1 [[rule "clip_value"]]]],
  node "clip_value" [[token "REAL", opt [[rule "coord_invar_tail"]]]],
  node "moduledef_opts" [[many [[rule "moduledef_option"]]]],
  node "moduledef_option" [[rule "two_layers"], [rule "zoomlimits"], [token "ZOOMABLE"],
    [rule "grid"]],
  node "two_layers" [[token "TWO_LAYERS", token "LAYERLIMIT", mark "EQUAL", token "REAL"]],
  node "zoomlimits" [[token "ZOOMLIMITS", mark "EQUAL", token "REAL", token "REAL"]],
  node "grid" [[token "GRID", mark "EQUAL", token "REAL"]],
  node "graph_objects" [[token "GRAPHOBJECTS", mark "COLON", some1 [[rule "graph_object"]]]],
  node "graph_object" [[rule "text_object"], [rule "rectangle_object"], [rule "line_object"],
    [rule "oval_object"], [rule "polygon_object"], [rule "segment_object"],
    [rule "composite_object"]],
  node "common_properties" [[opt [[rule "layer_info"]], opt [[rule "enable"]],
    many [[rule "color_properties"]]]],
  node "layer_info" [[token "LAYER_PREFIX", mark "EQUAL", token "SIGNED_INT"]],
  node "enable" [[token "ENABLE_PREFIX", mark "EQUAL", token "BOOL", oneOf [[rule "invar"],
    [rule "enable_expression"]]]],
  node "enable_expression" [[mark "COLON", mark "LPAR", rule "expression", mark "RPAR"]],
  node "invar" [[mark "COLON", token "INVAR_PREFIX", rule "connected_variable"]],
  node "variable_name" [[token "NAME", many [[token "DOT", token "NAME"]], opt [[mark "COLON",
    oneOf [[token "NEW"], [token "OLD"]]]]]],
  node "format_string" [[mark "FORMAT_STRING_", mark "EQUAL", rule "value",
    opt [[rule "invar_tail"], [rule "enable_expression"]]]],
  node "connected_variable" [[rule "value"], [rule "variable_name"]],
  node "value_fraction" [[token "VALUEFRACTION", mark "EQUAL", token "SIGNED_INT",
    opt [[rule "invar"]]]],
  node "connection_node" [[token "CONNECTIONNODE", mark "LPAR", token "REAL", mark "COMMA",
    token "REAL", mark "RPAR"]],
  node "alignment" [[token "LEFTALIGNED"], [token "RIGHTALIGNED"]],
  node "color_properties" [[rule "outline_colour"], [rule "fill_colour"]],
  node "outline_colour" [[token "OUTLINECOLOUR", mark "COLON", opt [[rule "width"]],
    opt [[rule "colour_assignments"]], opt [[rule "colour_style"]]]],
  node "fill_colour" [[token "FILLCOLOUR", mark "COLON", opt [[rule "colour_assignments"]],
    opt [[rule "colour_style"]]]],
  node "assign_colour" [[oneOf [[token "COLOUR0"], [token "COLOUR1"]], mark "EQUAL",
    token "SIGNED_INT", opt [[rule "invar"]]]],
  node "colour_assignments" [[some1 [[rule "assign_colour"]]]],
  node "colour_style" [[token "COLOURSTYLE", mark "EQUAL", oneOf [[token "REAL"],
    [token "BOOL"]], opt [[rule "invar"], [rule "enable_expression"]]]],
  node "width" [[token "WIDTH_KEY", mark "EQUAL", token "SIGNED_INT", opt [[rule "invar"]]]]]

def graphRules : List Rule := [
  node "text_object" [[token "TEXTOBJECT", rule "origo_size_pair", some1 [[rule "text_content"],
    [token "VARNAME"], [rule "value_fraction"], [rule "alignment"], [rule "connection_node"],
    [rule "width"], [rule "format_string"]], rule "common_properties"]],
  node "text_content" [[token "STRING_CRLF"], [token "STRING"]],
  node "rectangle_object" [[token "RECTANGLEOBJECT", rule "origo_size_pair",
    rule "common_properties"]],
  node "line_object" [[token "LINEOBJECT", rule "origo_size_pair", rule "common_properties"]],
  node "oval_object" [[token "OVALOBJECT", rule "origo_size_pair", rule "common_properties"]],
  node "polygon_object" [[token "POLYGONOBJECT", opt [[rule "polygon_type"]],
    some1 [[rule "coordinates"]], rule "common_properties"]],
  node "polygon_type" [[some1 [[token "POLYLINE"], [token "SPLINE"], [token "CONNECTION"]]]],
  node "segment_object" [[token "SEGMENTOBJECT", rule "origo_size_pair", rule "coordinates",
    rule "common_properties"]],
  node "composite_object" [[token "COMPOSITEOBJECT", rule "common_properties"]]]

def interactionRules : List Rule := [
  node "interact_objects" [[token "INTERACTOBJECTS", mark "COLON",
    some1 [[rule "interact_item"]]]],
  node "interact_item" [[rule "combutproc_item"], [rule "interact_simple_item"]],
  node "combutproc_item" [[token "COMBUTPROC", some1 [[rule "origo_size_pair"]],
    rule "procedure_call", many [[rule "combutproc_tail"]]]],
  node "procedure_call" [[token "NAME", opt [[rule "procedure_args"]]]],
  node "procedure_args" [[some1 [[rule "proc_atom"]]]],
  node "proc_atom" [[rule "value"], [rule "invar_tail"], [rule "enable_expression"]],
  node "combutproc_tail" [[rule "layer_info"], [rule "interact_assign_variable"],
    [rule "interact_flag"], [rule "enable"], [rule "outline_colour"], [rule "fill_colour"]],
  node "interact_simple_item" [[rule "interact_type_simple", some1 [[rule "origo_size_pair"]],
    rule "interact_body_seq"]],
  node "interact_type_simple" [[token "COMBUT"], [token "OPTBUT"], [token "PROCEDUREINTERACT"],
    [token "CHECKBOX"], [token "TEXTBOX"], [token "MENUINTERACT"], [token "SIMPLEINTERACT"]],
  node "interact_body_seq" [[some1 [[rule "interact_body"]]]],
  node "interact_body" [[rule "layer_info"], [rule "outline_colour"], [rule "fill_colour"],
    [rule "enable"], [rule "interact_assign_variable"], [rule "interact_flag"],
    [rule "interact_value_line"], [rule "alignment"], [rule "format_string"]],
  node "interact_value_line" [[some1 [[rule "value_or_invar"]]]],
  node "value_or_invar" [[rule "value"], [rule "invar_tail"]],
  node "invar_tail" [[mark "COLON", oneOf [[token "INVAR_PREFIX"], [token "OUTVAR_PREFIX"]],
    oneOf [[rule "connected_variable"], [token "NAME", some1 [[rule "value"]]]]]],
  node "interact_flag" [[token "NAME", opt [[token "STRING"], [token "SIGNED_INT"]],
    opt [[rule "invar_tail"]]]],
  node "interact_assign_variable" [[oneOf [[token "NAME"], [token "TEXTOBJECT"],
    [token "GLOBAL_KW"]], mark "EQUAL", rule "value", opt [[rule "invar_tail"],
    [rule "enable_expression"]]]]]

/-- All rules; the first one is the rule of a whole program. -/
def rules : List Rule :=
  moduleRules ++ declarationRules ++ codeRules ++ sequenceRules ++ pictureRules ++ graphRules ++
    interactionRules

end SattLine.Grammar
