import ScriptBridge.Project.FileTree
import ScriptBridge.TypeScript.Token

/-!
# Faults of modules

Why an import cannot be followed, and where it stands.
-/

namespace ScriptBridge

/-- Why a module or a name in it cannot be had. -/
inductive ModuleCause where
  | unreadable (failure : ReadFailure)
  | notFound (specifier : String)
  | notExported (specifier name : String)
  /-- A text on its own imports nothing. -/
  | standsAlone (specifier : String)
  | circular (specifier : String)
deriving DecidableEq, Repr

/-- The wording of a cause. -/
def ModuleCause.message : ModuleCause → String
  | unreadable failure => "cannot read file: " ++ failure.message
  | notFound specifier => "cannot find module '" ++ specifier ++ "'"
  | notExported specifier name =>
    "module '" ++ specifier ++ "' has no exported member '" ++ name ++ "'"
  | standsAlone specifier => "cannot import '" ++ specifier ++ "' when converting a single source"
  | circular specifier => "circular import of '" ++ specifier ++ "' is not supported"

/-- A fault of an import at a place. -/
structure ModuleFault where
  cause : ModuleCause
  file : String
  line : Nat
  col : Nat
deriving DecidableEq, Repr

/-- A fault at the start of a span. -/
def ModuleFault.at (cause : ModuleCause) (file : String) (span : TypeScript.Span) : ModuleFault :=
  { cause, file, line := span.line, col := span.col }

end ScriptBridge
