import ScriptBridge.Command.Run

/-!
# The program

Reads the entry file and the files that it may import from disk, runs the command on them, and writes
its output.
-/

namespace ScriptBridge.Command

/-- The content of the file at a path, if there is one. -/
def readFile? (path : String) : IO (Option ByteArray) := do
  try
    return some (← IO.FS.readBinFile path)
  catch _ =>
    return none

/-- Whether there is a directory at a path. -/
def isDirectory (path : String) : IO Bool := do
  try
    (← IO.FS.realPath path).isDir
  catch _ =>
    return false

/-- The paths that the imports of a file may stand for. -/
def importedPaths (place : Place) (path : String) (content : ByteArray) : List String :=
  match decodeText content with
  | none => []
  | some text =>
    match TypeScript.parse path text with
    | .error _ => []
    | .ok file =>
      (moduleSpecifiers file).flatMap fun (specifier, _) => moduleCandidates place path specifier

/-- Adds the files at paths, and those that they may import, to a place. -/
partial def gather (place : Place) : List String → IO Place
  | [] => return place
  | path :: rest => do
    if place.tree.isFile path then gather place rest
    else
      match ← readFile? path with
      | some content =>
        let tree := { place.tree with files := place.tree.files ++ [(path, content)] }
        gather { place with tree } (rest ++ importedPaths place path content)
      | none =>
        if ← isDirectory path then
          let tree := { place.tree with directories := path :: place.tree.directories }
          gather { place with tree } rest
        else gather place rest

/-- Writes a file and the directories it lies in; says whether that was possible. -/
def writeFile (path text : String) : IO Bool := do
  try
    let parent := Path.directory path
    if !parent.isEmpty then IO.FS.createDirAll parent
    IO.FS.writeFile path text
    return true
  catch _ =>
    return false

/-- Runs the command in the current directory. -/
def runOnDisk (o : Options) : IO Exit := do
  let here := (← IO.currentDir).toString
  let root := Path.absolute here (o.root.getD here)
  let place ← gather
    { tree := { root := here, files := [] }, workingDirectory := here, root }
    [Path.absolute here o.entry]
  match compile place o with
  | .error (.print fault) => return { status := 1, stderr := "error: " ++ fault.message ++ "\n" }
  | .error (.compile _) => return { status := 1, stderr := "error: cannot compile\n" }
  | .ok work =>
    match work.output with
    | none => return work.exit
    | some (path, text) =>
      if ← writeFile path text then return wrote o work.exit path
      else return notWritten work.exit path

end ScriptBridge.Command

open ScriptBridge.Command in
/-- The command. -/
def main (args : List String) : IO UInt32 := do
  let exit ← match parseArgs args with
    | .error exit => pure exit
    | .ok o => runOnDisk o
  IO.print exit.stdout
  IO.eprint exit.stderr
  return UInt32.ofNat exit.status
