import SattLine.Routine.Basic

/-!
The routines that every program may call, in alphabetical order.
-/

namespace SattLine.Routine

open Parameter

/-- A procedure that goes on in the background after its call. -/
def background (name : String) (parameters : List Parameter) : Routine :=
  procedure name false (parameters ++ [operation, debugStatus])

def acof (name : String) (signals : List String) : Routine :=
  function name "Boolean" true
    (both "Acof" "AcofType" :: signals.map boolean ++ [reference "Time" "Duration"])

def editWindow (name : String) : Routine :=
  procedure name false [string "FileName", boolean "ReadOnly", real "xPos", real "yPos",
    boolean "RelativePos", integer "NoOfRows", integer "NoOfColumns", integer "FontKind",
    integer "FontSize", status]

def fileOpening (name : String) : Routine :=
  background name [output "FileRef" "tObject", string "FileName"]

def fileTransfer (name : String) : Routine :=
  background name [string "RemoteSystemIdentity", string "RemoteFileName", string "LocalFileName"]

def moduleWindow (name : String) : Routine :=
  procedure name false [string "ModulePath", string "WindowTitle", boolean "RelativePos",
    real "xPos", real "yPos", real "xSize", real "ySize", boolean "HierarchicRoot",
    integer "SelectClass", integer "TimeOut", unsortedOutput "WindowDisplayed" "Boolean", status]

def realFunction (name : String) : Routine :=
  function name "Real" true [real "Argument"]

def fromAToC : List Routine := [
  function "abs" "AnyType" true [input "Argument" "AnyType"],
  acof "acof1" ["OO", "OC", "O", "C"],
  acof "acof2" ["OO", "O", "C"],
  acof "acof3" ["OO", "O"],
  acof "acof4" ["OO", "OH", "O", "C"],
  acof "acof5" ["OO", "C"],
  acof "acof8" ["OO", "OC", "O"],
  acof "acof9" ["OO", "OC", "C"],
  procedure "adddurations" true [duration, duration, output "DurationSum" "Duration", status],
  procedure "addtimeandduration" true [time, duration, output "Time" "Time", status],
  realFunction "arctan",
  procedure "asciirecordtostring" false [any "IntegerRecord", integer "NoOfCharacters",
    integer "NoOfCharsPerInteger", output "String" "String", status],
  procedure "assignsystemboolean" false [string "SysVarId", boolean "SystemVarBoolVal", status],
  procedure "assignsysteminteger" false [string "SysVarId", integer "SystemVarIntVal", status],
  procedure "assignsystemreal" false [string "SysVarId", real "SystemVarRealVal", status],
  procedure "assignsystemstring" false [string "SysVarId", string "SystemVarStringVal", status],
  procedure "bcdtointeger" true [integer "BCD", output "Int" "Integer", status],
  procedure "boolean16tointeger" true [any "BooleanRecord", output "Int" "Integer", status],
  procedure "boolean32tointeger" true [any "BooleanRecord", output "Int" "Integer", status],
  procedure "checksum" false [any "Data", integer "StartPos", integer "StopPos", integer "Type",
    output "Result" "Integer", status],
  procedure "clearqueue" false [queue, status],
  procedure "clearstring" false [output "String" "String"],
  background "closedevice" [input "DeviceRef" "tObject"],
  background "closefile" [reference "FileRef" "tObject"],
  background "comlidial" [input "ComliMaster" "tObject", string "TelePhoneNo"],
  background "comlihangup" [input "ComliMaster" "tObject"],
  procedure "concatenate" false [reference "String1" "String", reference "String2" "String",
    output "Result" "String", status],
  procedure "copyduration" true [reference "Source" "Duration", output "Destination" "Duration"],
  procedure "copystring" true [string "Source", output "Destination" "String", status],
  procedure "copystringnosort" true [unsortedReference "Source" "String",
    unsortedOutput "Destination" "String", status],
  procedure "copytime" true [reference "Source" "Time", output "Destination" "Time"],
  procedure "copyvariable" true [any "Source", output "Destination" "AnyType", status],
  procedure "copyvarnosort" true [unsortedReference "Source" "AnyType",
    unsortedOutput "Destination" "AnyType", status],
  realFunction "cos",
  procedure "createarray" false [output "Array" "ArrayObject", integer "FirstIndex",
    integer "LastIndex", any "ArrayElement", status],
  procedure "createdevice" false [string "Device", status],
  procedure "createqueue" false [output "Queue" "QueueObject", integer "Size", any "QueueElement",
    status],
  fileOpening "createwritefile",
  function "currentqueuesize" "Integer" false [queue, status],
  procedure "currentuser" false [output "UserName" "String", output "UserClassName" "String"],
  procedure "cutstring" false [output "String" "String", integer "Length", status]]

def fromDToG : List Routine := [
  procedure "definestaticrouting" false [boolean "RedundantRoutingInfo", string "RemoteSystem",
    string "LocalPort", string "PortInNextSystem", status],
  procedure "deletearray" false [output "Array" "ArrayObject", status],
  procedure "deleteeditfile" false [string "FileName", status],
  background "deletefile" [string "FileName"],
  procedure "deletequeue" false [output "Queue" "QueueObject", status],
  procedure "deletewindow" false [string "ModulePath", integer "SelectClass", status],
  function "durationgreaterthan" "Boolean" true [duration, duration, status],
  procedure "durationtodurrec" true [duration, output "DurationRecord" "DurationRecord", status],
  procedure "durationtostring" false [duration, output "DurationString" "String", status],
  procedure "durrectoduration" true [reference "DurationRecord" "DurationRecord",
    output "Duration" "Duration", status],
  function "elapsed" "Integer" true [reference "Timer" "Timer"],
  function "equal" "Boolean" true [any "Variable", any "Variable"],
  function "equalstrings" "Boolean" true [string "String1", string "String2",
    boolean "CaseSensitive"],
  function "equalvariables" "Boolean" true [any "Variable", any "Variable", status],
  realFunction "exp",
  procedure "extractstring" false [output "String" "String", reference "String2" "String",
    integer "Length", status],
  procedure "fdurationtostring" false [duration, string "DurationFormat",
    output "DurationString" "String", status],
  background "fileexists" [string "FileName"],
  procedure "getarray" false [array, integer "Index", output "ArrayElement" "AnyType", status],
  function "getascii" "Integer" false [reference "Str" "String", status],
  procedure "getfirstqueue" false [queue, output "QueueElement" "AnyType", status],
  procedure "getlastqueue" false [queue, output "QueueElement" "AnyType", status],
  procedure "getrecordcompnosort" false [unsortedReference "Rec" "AnyType",
    integer "ComponentIndex", unsortedOutput "ResultRec" "AnyType",
    unsortedOutput "Status" "Integer"],
  procedure "getrecordcomponent" false [any "Rec", integer "ComponentIndex",
    output "ResultRec" "AnyType", status],
  fileTransfer "getremotefile",
  fileTransfer "getremotesinglefile",
  function "getstringpos" "Integer" false [looseBoth "String" "String"],
  function "getsystemtype" "Integer" false [],
  procedure "gettime" true [output "Time" "Time", status],
  procedure "getuserfullname" false [string "UserName", output "FullName" "String", status],
  function "getuseridletime" "Integer" false [],
  procedure "graycodetointeger" true [any "BooleanRecord", output "Int" "Integer"]]

def fromHToO : List Routine := [
  procedure "initvariable" false [output "Rec" "AnyType", any "InitRec", status],
  procedure "insertarray" false [array, integer "Index", any "ArrayElement", status],
  procedure "insertascii" false [integer "ASCII", output "Str" "String", status],
  procedure "insertstring" false [output "String" "String", reference "String2" "String",
    integer "Length", status],
  procedure "integertobcd" true [integer "Int", output "BCD" "Integer", status],
  procedure "integertoboolean16" true [integer "Int", output "BooleanRecord" "AnyType", status],
  procedure "integertoboolean32" true [integer "Int", output "BooleanRecord" "AnyType", status],
  procedure "integertograycode" true [integer "Int", output "BooleanRecord" "AnyType"],
  procedure "integertooctalstring" false [output "String" "String", integer "Value",
    integer "Width", status],
  procedure "integertostring" false [output "String" "String", integer "Value", integer "Width",
    status],
  function "isinsimulate" "Boolean" false [],
  function "limit" "Boolean" true [reference "Timer" "Timer", integer "Value"],
  realFunction "ln",
  function "loggedin" "Boolean" false [string "UserSign"],
  procedure "maxlim" true [real "In", real "OnLim", real "Hyst", output "Q" "Boolean"],
  function "maxstringlength" "Integer" false [unsortedReference "String" "String"],
  procedure "minlim" true [real "In", real "OnLim", real "Hyst", output "Q" "Boolean"],
  function "mod" "Integer" true [integer "Argument", integer "Argument"],
  background "movefile" [string "FileName", string "FileName", boolean "Delete"],
  procedure "nationallowercase" false [reference "SourceString" "String",
    output "DestinationString" "String", integer "NationCode", status],
  procedure "nationaluppercase" false [reference "SourceString" "String",
    output "DestinationString" "String", integer "NationCode", status],
  editWindow "neweditfile",
  moduleWindow "newwindow",
  function "octalstringtointeger" "Integer" false [reference "String" "String", status],
  function "offtimer" "Boolean" true [both "Timer" "OnOffTimerType", boolean "Enable",
    reference "PresetTime" "Duration"],
  function "ontimer" "Boolean" true [both "Timer" "OnOffTimerType", boolean "Enable",
    reference "PresetTime" "Duration"],
  background "opendevice" [string "Device", output "DeviceRef" "tObject"],
  fileOpening "openreadfile",
  fileOpening "openwritefile",
  procedure "operatorinteraction" false [reference "Tag" "String", integer "Severity",
    integer "Class", reference "Description" "String", any "OldValue", any "NewValue", status]]

def fromPToR : List Routine := [
  background "printfile" [string "RemotePrinterSysId", string "PrinterName",
    string "RemoteFileNameSave", string "LocalFileName", boolean "LocalFileDelete"],
  function "pulsetimer" "Boolean" true [both "Timer" "OnOffTimerType", integer "PeriodTime",
    integer "OnTime"],
  procedure "putarray" false [array, integer "Index", any "ArrayElement", status],
  procedure "putblanks" false [output "String" "String", integer "NumberOfSpaces", status],
  procedure "putfirstqueue" false [queue, any "QueueElement", status],
  procedure "putlastqueue" false [queue, any "QueueElement", status],
  procedure "putrecordcompnosort" false [unsortedOutput "Rec" "AnyType", integer "ComponentIndex",
    unsortedReference "InputRec" "AnyType", unsortedOutput "Status" "Integer"],
  procedure "putrecordcomponent" false [output "Rec" "AnyType", integer "ComponentIndex",
    any "InputRec", status],
  fileTransfer "putremotefile",
  fileTransfer "putremotesinglefile",
  function "randomnorm" "Real" true [both "RandomGenerator" "RandomGenerator"],
  function "randomrect" "Real" true [both "Randomenerator" "RandomGenerator"],
  procedure "randomseed" true [both "RandomGenerator" "RandomGenerator"],
  background "readline" [input "FileRef" "tObject", output "String" "String"],
  background "readlinedevice" [input "DeviceRef" "tObject", output "Data" "AnyType"],
  procedure "readqueue" false [queue, integer "Number", output "QueueElement" "AnyType", status],
  background "readstringdevice" [input "DeviceRef" "tObject", output "Data" "AnyType"],
  procedure "readsystemstring" false [string "SystemVarId", output "SystemVarStringVal" "String",
    status],
  background "readvar" [looseBoth "RemoteVariable" "AnyType",
    unsortedOutput "LocalVariable" "AnyType"],
  procedure "realtostring" false [output "String" "String", real "Value", integer "Width",
    integer "Fraction", status],
  procedure "removestaticrouting" false [boolean "RedundantRoutingInfo"],
  procedure "restorevariable" false [output "Variable" "AnyType", string "RestoreFile", status],
  procedure "restorevariablematch" false [output "Variable" "AnyType", string "RestoreFile",
    status],
  function "round" "Integer" true [real "Argument"]]

def fromS : List Routine := [
  background "savetovss" [string "FileName", string "Comment"],
  procedure "savevariable" false [any "Variable", string "SaveFile", status],
  procedure "savevariablecoded" false [any "Variable", string "SaveFile", status],
  function "searcharray" "Boolean" false [array, both "SearchIndex" "Integer",
    integer "SearchCount", any "SearchElement", any "SearchComponent",
    output "FoundElement" "AnyType", status],
  function "searchreccomponent" "Boolean" false [any "Rec", both "SearchIndex" "Integer",
    integer "SearchCount", any "SearchRecord", any "SearchComponent", output "FoundRec" "AnyType",
    status],
  procedure "setseed" true [integer "Seed", output "RandomGenerator" "RandomGenerator"],
  procedure "setshowprogram" false [boolean "Enable"],
  procedure "setstringpos" false [looseBoth "String" "String", integer "Position", status],
  procedure "settime" true [time, status],
  procedure "setupdevice" false [string "Device", both "Values" "AnyType", status],
  realFunction "sin",
  realFunction "sqrt",
  procedure "standalonewindow" false [string "ModulePath", boolean "EnableTitle",
    string "WindowTitle", real "xPos", real "yPos", real "xSize", real "ySize",
    integer "SelectClass", integer "TimeOut", unsortedOutput "WindowDisplayed" "Boolean", status],
  function "stringlength" "Integer" false [unsortedReference "String" "String"],
  function "stringmatch" "Boolean" false [reference "Pattern" "String",
    reference "Searchstring" "String", boolean "CaseSensitive", status],
  procedure "stringtoasciirecord" false [reference "String" "String", integer "NoOfCharsPerInteger",
    output "IntegerRecord" "AnyType", status],
  procedure "stringtoduration" false [string "DurationString", output "Duration" "Duration",
    status],
  function "stringtointeger" "Integer" false [reference "String" "String", status],
  function "stringtoreal" "Real" false [reference "String" "String", status],
  procedure "stringtotime" false [string "TimeString", string "TimeFormat", output "Time" "Time",
    status],
  procedure "stringtotimerecord" false [string "TimeString", string "TimeFormat",
    output "TimeRecord" "TimeRecord", status],
  procedure "subdurationfromtime" true [time, duration, output "Time" "Time", status],
  procedure "subdurations" true [duration, duration, output "DurationSum" "Duration", status],
  procedure "subtimerecords" true [timeRecord, timeRecord, output "Duration" "Duration", status],
  procedure "subtimes" true [time, time, output "Duration" "Duration", status],
  function "systemboolean" "Boolean" false [string "SystemVarId", status],
  background "systemcommand" [string "Command"],
  function "systeminteger" "Integer" false [string "SystemVarId", status],
  function "systemreal" "Real" false [string "SystemVarId", status]]

def fromTToZ : List Routine := [
  function "timebefore" "Boolean" true [time, time, status],
  procedure "timer" true [output "Timer" "Timer", boolean "Enable", boolean "Hold"],
  procedure "timerclear" true [output "Timer" "Timer"],
  function "timerecordbefore" "Boolean" true [timeRecord, timeRecord, status],
  procedure "timerecordtostring" false [timeRecord, string "TimeFormat",
    output "TimeString" "String", status],
  procedure "timerecordtotime" true [timeRecord, output "Time" "Time", status],
  procedure "timerstart" true [output "Timer" "Timer"],
  procedure "timerstop" true [output "Timer" "Timer"],
  procedure "timetocalendarrecord" true [time, output "CalendarRecord" "CalendarRecord", status],
  procedure "timetostring" false [time, string "TimeFormat", output "TimeString" "String", status],
  procedure "timetotimerecord" true [time, output "TimeRecord" "TimeRecord", status],
  editWindow "toggleeditfile",
  moduleWindow "togglewindow",
  procedure "vssgetlasterror" false [output "ErrorCode" "Integer", output "ErrorText" "String"],
  background "writeline" [input "FileRef" "tObject", string "String"],
  background "writelinedevice" [input "DeviceRef" "tObject", any "Data", boolean "EndOfSection"],
  background "writelongvar" [looseBoth "RemoteVariable" "AnyType", any "LocalVariable"],
  background "writestring" [input "FileRef" "tObject", string "String"],
  background "writestringdevice" [input "DeviceRef" "tObject", any "Data", boolean "EndOfSection"],
  background "writevar" [looseBoth "RemoteVariable" "AnyType", any "LocalVariable"]]

def library : List Routine :=
  fromAToC ++ fromDToG ++ fromHToO ++ fromPToR ++ fromS ++ fromTToZ

/-- The routine of that name, in any letter case. -/
def find? (name : String) : Option Routine :=
  let name := Text.lower name
  library.find? fun routine => routine.name == name

end SattLine.Routine
