import SattLine.Plant.Configuration

/-!
The components of a plant: its programs and libraries, with what each depends on. A program
also has the address of its controller and the units that it serves.
-/

namespace SattLine.Plant

structure Component where
  name : String
  kind : String
  address : String
  controller : String
  units : String
  dependencies : List String
  deriving DecidableEq, Repr

/-- The kind of components that are no libraries. -/
def programKind : String := "Program"

/-- The text without every stretch that reads like the ending of a list file. -/
def dropListEndings : List Char → List Char
  | [] => []
  | '.' :: 'z' :: rest => dropListEndings rest
  | c :: rest => c :: dropListEndings rest

/-- A name as it is written in a list, without its ending. -/
def plainComponentName (name : String) : String :=
  String.ofList (dropListEndings name.toList)

/-- The names in a list file. A file that cannot be read lists nothing. -/
def listed (store : Store) (file : Location) : List String :=
  match store.text file with
  | .error _ => []
  | .ok text =>
    (((Text.lines text).map Text.trim).filter (· != "")).map plainComponentName

/-! Units are kept as a text: their number and their names in order. -/

def noUnits : String := "No units assigned"

def noProgramFile : String := "No X-File"

def unreadableProgramFile : String := "Error reading X-File"

def notApplicable : String := "N/A"

def unitsText (units : List String) : String :=
  match Text.sortedSet units with
  | [] => noUnits
  | units => "(" ++ toString units.length ++ ") " ++ ", ".intercalate units

/-- The text behind the first closing bracket that a blank follows. -/
def afterBracket? : List Char → Option (List Char)
  | [] => none
  | [_] => none
  | c :: d :: rest => if c == ')' && d == ' ' then some rest else afterBracket? (d :: rest)

/-- The names behind the number of units, as they are written. -/
def unitNames? (text : String) : Option String :=
  if text.toList.contains '(' && text.toList.contains ')' then
    (afterBracket? text.toList).map String.ofList
  else none

/-- The units in a text; a text without a number holds none. -/
def readUnits (text : String) : List String :=
  match unitNames? text with
  | some names => (Text.splitAtChar ',' names).map Text.trim
  | none => []

/-- The names alone, for the eye. -/
def unitsForDisplay (text : String) : String :=
  if ["", notApplicable, noUnits, noProgramFile, unreadableProgramFile].contains text then noUnits
  else (unitNames? text).getD text

def unitForm : Text.Form :=
  [.word "p", .name, .blanks, .remark, .blanks, .word ":", .blanks, .word "pType", .blanks, .word ";"]

/-- The units that the code beside a list file declares. -/
def unitsBeside (store : Store) (file : Location) : String :=
  let code := file.withEnding ".x"
  if !store.contains code then noProgramFile
  else
    match store.text code with
    | .ok text => unitsText (unitForm.allAtWords text).flatten
    | .error _ => unreadableProgramFile

/-! Controllers are known by their addresses. -/

def noAddressFile : String := "No Q-File"

def noAddress : String := "No SLC assigned"

def unreadableAddressFile : String := "Error reading Q-File"

def noController : String := "No SLC"

def addressForm : Text.Form :=
  [.word "(", .blanks, .word "Name", .gap, .quoted]

/-- The address that is written beside a list file. -/
def addressBeside (store : Store) (file : Location) : String :=
  let addresses := file.withEnding ".q"
  if !store.contains addresses then noAddressFile
  else
    match store.text addresses with
    | .ok text => ((addressForm.first? text).bind List.head?).getD noAddress
    | .error _ => unreadableAddressFile

/-- A program of a controller, and the controller's address. -/
structure Controller where
  name : String
  address : String
  deriving DecidableEq, Repr

namespace Controller

def longNumberForm : Text.Form := [.anyCase "pbslc", .number]

def numberForm : Text.Form := [.anyCase "slc", .number]

/-- The number in the name of a controller's program, by the two ways of naming them. -/
def number? (c : Controller) : Option String :=
  let name := Text.lower c.name
  if Text.holds name "pbslc" then (longNumberForm.first? c.name).bind List.head?
  else if Text.holds name "wdslc" || name.startsWith "kagcwd" then
    (numberForm.first? c.name).bind List.head?
  else none

end Controller

/-- Whether a text only says that there is no address. -/
def isNoAddress (address : String) : Bool :=
  [noAddressFile, noAddress, unreadableAddressFile].contains address

/-- The controller at an address: the first one that has a number in its name. -/
def controllerAt (controllers : List Controller) (address : String) : String :=
  if isNoAddress address then noController
  else
    match (controllers.filter fun c => c.address == address).findSome? Controller.number? with
    | some number => "SLC" ++ number
    | none => noController

/-! A plant has four folders of components and one of configurations. -/

def programFolder (root : Location) : Location := root.child "unitlib"

def projectFolder (root : Location) : Location := root.child "projectlib"

def sharedFolder (root : Location) : Location := root.child "nnelib"

def systemFolder (root : Location) : Location := root.child "SL_Library"

def configurationFolder (root : Location) : Location := root.child "Configuration"

/-- Whether the folders of components are there. -/
def isComplete (store : Store) (root : Location) : Bool :=
  [programFolder root, projectFolder root, sharedFolder root, systemFolder root].all store.contains

def configurations (store : Store) (root : Location) : List Configuration :=
  (filesEnding store (configurationFolder root) ".k").filterMap (Configuration.ofFile? store)

def controllers (store : Store) (root : Location) : List Controller :=
  let files := (filesEnding store (programFolder root) listEnding).filter fun file =>
    let name := Text.lower file.stem
    Text.holds name "pbslc" || Text.holds name "wd"
  files.map fun file => ⟨file.stem, addressBeside store file⟩

def component (store : Store) (controllers : List Controller) (kind : String) (isProgram : Bool)
    (file : Location) : Component :=
  let dependencies := listed store file
  if isProgram then
    let address := addressBeside store file
    ⟨file.stem, kind, address, controllerAt controllers address, unitsBeside store file,
      dependencies⟩
  else ⟨file.stem, kind, notApplicable, notApplicable, notApplicable, dependencies⟩

def components (store : Store) (root : Location) (controllers : List Controller) :
    List Component :=
  let inFolder (folder : Location) (kind : String) (isProgram : Bool) : List Component :=
    (filesEnding store folder listEnding).map (component store controllers kind isProgram)
  inFolder (programFolder root) programKind true ++
    inFolder (projectFolder root) "Project Library" false ++
    inFolder (sharedFolder root) "NNE Library" false ++
    inFolder (systemFolder root) "SG Library" false

/-- The first component of a name, whatever its letter case. -/
def component? (components : List Component) (name : String) : Option Component :=
  components.find? fun c => Text.sameName c.name name

end SattLine.Plant
