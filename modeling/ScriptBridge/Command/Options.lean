import ScriptBridge.Project.Path

/-!
# The command line

`parseArgs` reads the arguments of the command. It stops with an `Exit` for a request for help and for
arguments that make no sense; the first of them decides.
-/

namespace ScriptBridge.Command

/-- How imported modules are put together. -/
inductive Mode where
  /-- All modules in one scope. -/
  | bundle
  /-- Each imported module in a scope of its own. -/
  | modules
deriving DecidableEq, Repr, Inhabited

/-- The word for a mode. -/
def Mode.word : Mode → String
  | bundle => "bundle"
  | modules => "modules"

/-- The mode that a word stands for. -/
def Mode.ofWord? (word : String) : Option Mode :=
  [bundle, modules].find? (·.word == word)

/-- What the command is asked to do. -/
structure Options where
  entry : String
  output : Option String := none
  root : Option String := none
  mode : Mode := .bundle
  /-- Whether the tree is written in place of the program. -/
  ast : Bool := false
  /-- Whether progress is reported. -/
  verbose : Bool := false
deriving DecidableEq, Repr, Inhabited

/-- The end of the command: its status and what it writes. -/
structure Exit where
  status : Nat
  stdout : String := ""
  stderr : String := ""
deriving DecidableEq, Repr, Inhabited

/-- The help text. -/
def usage : String :=
  "usage: tsais transpile ENTRY [options]

Transpile a TypeScript entry file and its imports to AiScript.

Options:
  -o, --output FILE   Write output to FILE ('-' for stdout)
                      (default: dist/<entry-stem>.ais)
  --root DIR          Resolve non-relative imports against DIR
                      (default: current directory)
  --mode MODE         bundle: flatten every module into one scope
                      modules: keep each imported module in its own scope
                      (default: bundle)
  --ast               Print the output node tree as JSON instead of source
  --verbose           Log compilation progress to stderr
  --help              Show this help message
"

/-- Why arguments make no sense. -/
inductive UsageFault where
  | unknownCommand (word : String)
  | missingValue (flag : String)
  | unknownMode (word : String)
  | unknownFlag (flag : String)
  | unexpectedArgument (word : String)
  | missingEntry
deriving DecidableEq, Repr

/-- The wording of a fault. -/
def UsageFault.message : UsageFault → String
  | unknownCommand word => "unknown command '" ++ word ++ "'"
  | missingValue flag => flag ++ " requires an argument"
  | unknownMode word => "unknown mode '" ++ word ++ "' (expected bundle or modules)"
  | unknownFlag flag => "unknown flag '" ++ flag ++ "'"
  | unexpectedArgument word => "unexpected argument '" ++ word ++ "'"
  | missingEntry => "transpile requires an entry file"

/-- The end of a command with arguments that make no sense. -/
def UsageFault.exit (fault : UsageFault) : Exit :=
  { status := 2, stderr := "error: " ++ fault.message ++ "\n" }

/-- The end of a request for help. -/
def helpExit : Exit :=
  { status := 0, stdout := usage }

/-- Whether an argument asks for help. -/
def isHelp (arg : String) : Bool :=
  arg == "--help" || arg == "-h"

/-- Sets the option of a flag that takes a value; `none` if the flag takes none. -/
def setValue? (o : Options) (flag value : String) : Option (Except UsageFault Options) :=
  match flag with
  | "-o" | "--output" => some (.ok { o with output := some value })
  | "--root" => some (.ok { o with root := some value })
  | "--mode" =>
    some (match Mode.ofWord? value with
      | some mode => .ok { o with mode }
      | none => .error (.unknownMode value))
  | _ => none

/-- Whether a flag takes a value. -/
def takesValue (flag : String) : Bool :=
  (setValue? default flag "").isSome

/-- Reads the arguments after the command word; `entry` is the entry file, once it was seen. -/
def parseOptions : Option String → Options → List String → Except Exit Options
  | none, _, [] => .error UsageFault.missingEntry.exit
  | some entry, o, [] => .ok { o with entry }
  | entry, o, arg :: rest =>
    if isHelp arg then .error helpExit
    else if takesValue arg then
      match rest with
      | [] => .error (UsageFault.missingValue arg).exit
      | value :: rest =>
        match setValue? o arg value with
        | some (.ok o) => parseOptions entry o rest
        | some (.error fault) => .error fault.exit
        | none => parseOptions entry o rest
    else if arg == "--ast" then parseOptions entry { o with ast := true } rest
    else if arg == "--verbose" then parseOptions entry { o with verbose := true } rest
    else if arg.startsWith "-" && arg != "-" then .error (UsageFault.unknownFlag arg).exit
    else if entry.isNone then parseOptions (some arg) o rest
    else .error (UsageFault.unexpectedArgument arg).exit

/-- Reads the arguments of the command. -/
def parseArgs : List String → Except Exit Options
  | [] => .error { status := 2, stderr := usage }
  | command :: rest =>
    if isHelp command then .error helpExit
    else if command != "transpile" then .error (UsageFault.unknownCommand command).exit
    else parseOptions none default rest

/-- Where the output goes unless it is said. -/
def defaultOutput (entry : String) : String :=
  Path.join "dist" (Path.stem entry ++ ".ais")

end ScriptBridge.Command
