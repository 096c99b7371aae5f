import Lexicon.Command.Run

/-! The program at work in a directory: it reads the files that a run may need, runs, prints, and
writes back the files that have changed. -/
namespace Lexicon.Command

/-- The file that a path leads to, if there is one. A store is recognised by its text. -/
def readFile (path : Text) (isStore : Bool) : IO Files := do
  match Path.place (fun _ => true) path with
  | .ok (.name full) =>
    try
      let bytes := (← IO.FS.readBinFile (String.ofList full)).toList
      let store? := if isStore then (Text.ofBytes? bytes).bind PackedStore.ofText? else none
      return [(full, (store?.map FileContent.store).getD (.bytes bytes))]
    catch _ => return []
  | _ => return []

/-- The store file that a request needs. -/
def readStore (settings : Settings) (args : List Text) : IO Files := do
  match Request.ofArguments? args with
  | some (.run _ (.lookup request)) => readFile (storePath settings request) true
  | _ => return []

def writeChanged (old new : Files) : IO Unit := do
  for (name, content) in new do
    if let .bytes bytes := content then
      if old.get? name ≠ some content then
        IO.FS.writeBinFile (String.ofList name) bytes.toByteArray

/-- Runs the program in the working directory. The settings file is `config.ini`, or the one that
the environment names. -/
def runHere (args : List String) : IO UInt32 := do
  let args := args.map String.toList
  let path := ((← IO.getEnv "YOMILEX_CONFIG").getD "config.ini").toList
  let settingsFiles ← readFile path false
  let settings := (Settings.default.load settingsFiles path).settings
  let registryFiles ← readFile (settings.text .dictionariesPath) false
  let files := Table.ofList (settingsFiles ++ registryFiles ++ (← readStore settings args))
  match run files path args with
  | .error _ =>
    IO.eprintln "The settings, the registry or a record cannot be used."
    return 1
  | .ok result =>
    for line in result.log do
      IO.eprintln (String.ofList line)
    IO.print (String.ofList result.output.marked)
    writeChanged files result.files
    return UInt32.ofNat result.exit

end Lexicon.Command

def main (args : List String) : IO UInt32 := Lexicon.Command.runHere args
