import SattLine.Menu.Screen

/-!
The command line: the menus on the terminal, with the settings in the user's folder.
-/

namespace SattLine.Terminal

/-- The entry of the file system at a location; what cannot be read counts as absent. -/
def look (location : Location) : IO Entry := do
  let here ← IO.currentDir
  let place := here / location.text
  try
    if ← place.isDir then return .folder
    else if ← place.pathExists then return .file (← IO.FS.readBinFile place)
    else return .absent .missing
  catch _ => return .absent .missing

def write (location : Location) (text : String) : IO (Except ReadError Unit) := do
  let here ← IO.currentDir
  let place := here / location.text
  if ← place.isDir then return .error (.isFolder location)
  IO.FS.writeFile place text
  return .ok ()

def isCodeOrList (name : String) : Bool :=
  [".x", ".z", ".s", ".l"].any fun ending => name.endsWith ending

/-- Enters a folder with its code files and lists into a store. -/
def enter (store : Store) (folder : Location) : IO Store := do
  let here ← IO.currentDir
  let place := here / folder.text
  if !(← place.isDir) then return store
  let way := Location.settle (store.start folder) folder.parts
  (← place.readDir).foldlM (fun store entry => do
    if isCodeOrList entry.fileName && !(← entry.path.isDir) then
      return store.write (way ++ [entry.fileName]) (← IO.FS.readBinFile entry.path)
    else return store) (store.makeFolder way)

def survey (folders : List Location) : IO Store := do
  let here := (Location.ofText (← IO.currentDir).toString).parts
  let store : Store := Store.makeFolder { current := here } here
  folders.foldlM enter store

def say (text : String) : IO Unit := do
  let output ← IO.getStdout
  output.putStr text
  output.flush

def ask (text : String) : IO (Option String) := do
  say text
  let line ← (← IO.getStdin).getLine
  return if line.isEmpty then none else some (line.dropEndWhile (· == '\n')).toString

def host : Menu.Host IO where
  clear := say "\x1b[H\x1b[2J"
  say := say
  ask := ask
  look := look
  write := write
  survey := survey

partial def loop (file : Location) (screen : Menu.Screen) : Menu.Dialogue IO Unit := do
  if screen != .closed then loop file (← Menu.turn host file screen)

/-- The file of settings; its folder is made. -/
def settingsFile : IO Location := do
  let home := Location.ofText ((← IO.getEnv "HOME").getD "/")
  let base := ((← IO.getEnv "XDG_CONFIG_HOME").map Location.ofText).getD (home.child ".config")
  let folder := base.child "sattline"
  IO.FS.createDirAll folder.text
  return folder.child "config.toml"

/-- What is written when a dialogue breaks off. -/
def wording (stop : Menu.Stop) : String :=
  match stop with
  | .endOfInput => "End of input"
  | .fault f => f.message
  | .unreadable cause => cause.message
  | .malformedSettings => "The settings are no TOML document"
  | .notLoaded cause => cause.message
  | stop => stop.message.getD "The program cannot be analysed"

end SattLine.Terminal

def main : IO UInt32 := do
  let file ← SattLine.Terminal.settingsFile
  let dialogue : SattLine.Menu.Dialogue IO Unit := do
    SattLine.Terminal.loop file (← SattLine.Menu.start SattLine.Terminal.host file)
  let (result, _) ← dialogue.run.run {}
  match result with
  | .ok () => return 0
  | .error stop =>
    IO.eprintln (SattLine.Terminal.wording stop)
    return 1
