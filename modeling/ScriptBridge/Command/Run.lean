import ScriptBridge.AiScript.Listing
import ScriptBridge.AiScript.Printer
import ScriptBridge.Bundle.Bundle
import ScriptBridge.Command.Options

/-!
# Running the command

`compile` does the work of the command up to writing its output; `run` also writes it to the files of a
place. Faults of the compiled program end the command with a message. Faults that have no place in the
program end it without one.
-/

namespace ScriptBridge.Command

open Conversion

/-- Why a command ends without an answer. -/
inductive CommandFault where
  | compile (fault : CompileFault)
  | print (fault : AiScript.PrintError)

/-- What is left to do after compiling: nothing, or writing a text to a file. -/
structure Work where
  exit : Exit
  /-- The file to write, and its text. -/
  output : Option (String × String) := none

/-- The lines that report events, if they are wanted. -/
def reportLines (o : Options) (events : Array Event) : String :=
  if o.verbose then String.join (events.toList.map fun e => e.line ++ "\n") else ""

/-- The line that reports a fault. -/
def faultLine (file : String) (line col : Nat) (message : String) : String :=
  "error: " ++ file ++ ":" ++ toString line ++ ":" ++ toString col ++ ": " ++ message ++ "\n"

/-- The output nodes, or the line that reports why there are none; with what happened. -/
def transpile (place : Place) (o : Options) :
    Except CommandFault (Except String (List AiScript.Node) × Array Event) :=
  match o.mode with
  | .modules =>
    match convertProgram defaultCapabilities o.entry place .start with
    | .ok nodes s => .ok (.ok nodes, s.events)
    | .error fault s =>
      match Bundle.placedCause? fault with
      | some (cause, file, line, col) =>
        .ok (.error (faultLine file line col cause.message), s.events)
      | none => .error (.compile fault)
  | .bundle =>
    match Bundle.bundle defaultCapabilities o.entry place { session := .start } with
    | .ok nodes s => .ok (.ok nodes, s.session.events)
    | .error (.failed f) s =>
      .ok (.error (faultLine f.file f.line f.col f.message), s.session.events)
    | .error (.other fault) _ => .error (.compile fault)

/-- A text that ends in a line break. -/
def endLine (text : String) : String :=
  if text.endsWith "\n" then text else text ++ "\n"

/-- The text of output nodes. -/
def outputText (o : Options) (nodes : List AiScript.Node) : Except CommandFault String :=
  if o.ast then .ok ((Tree.list (nodes.map (·.tree AiScript.lineFields))).json ++ "\n")
  else
    match AiScript.print nodes with
    | .ok text => .ok (endLine text)
    | .error fault => .error (.print fault)

/-- Does the work of the command up to writing a file. -/
def compile (place : Place) (o : Options) : Except CommandFault Work := do
  let (result, events) ← transpile place o
  let stderr := reportLines o events
  match result with
  | .error line => return { exit := { status := 1, stderr := stderr ++ line } }
  | .ok nodes =>
    let text ← outputText o nodes
    let path := o.output.getD (defaultOutput o.entry)
    if path == "-" then return { exit := { status := 0, stdout := text, stderr } }
    else return { exit := { status := 0, stderr }, output := some (path, text) }

/-- The end of a command whose output was written. -/
def wrote (o : Options) (e : Exit) (path : String) : Exit :=
  { e with stderr := e.stderr ++ reportLines o #[.wrote path] }

/-- The end of a command whose output could not be written. -/
def notWritten (e : Exit) (path : String) : Exit :=
  { e with status := 1, stderr := e.stderr ++ "error: cannot write '" ++ path ++ "'\n" }

/-! ## Writing to a place -/

/-- Whether the last part of a path can name a file. -/
def namesFile (path : String) : Bool :=
  let last := Path.baseName path
  !(last == "" || last == "." || last == "..")

/-- The beginnings of a path, as far as its parts go before the last one. -/
def leadingPaths (path : String) : List String :=
  let parts := splitAt '/' path
  (List.range parts.length).map fun n => "/".intercalate (parts.take n)

/-- Whether a file can be written at a path. -/
def isWritable (place : Place) (path : String) : Bool :=
  let full := Path.join place.workingDirectory path
  namesFile path && !place.tree.isDirectory (Path.normalize full) &&
    !(leadingPaths full).any fun p => place.tree.isFile (Path.normalize p)

/-- Runs the command; the file that it writes is given by its absolute path. -/
def run (place : Place) (args : List String) :
    Except CommandFault (Exit × Option (String × String)) := do
  match parseArgs args with
  | .error exit => return (exit, none)
  | .ok o =>
    let root := Path.absolute place.workingDirectory (o.root.getD place.workingDirectory)
    let place := { place with root }
    let work ← compile place o
    match work.output with
    | none => return (work.exit, none)
    | some (path, text) =>
      if isWritable place path then
        return (wrote o work.exit path, some (Path.absolute place.workingDirectory path, text))
      else return (notWritten work.exit path, none)

end ScriptBridge.Command
