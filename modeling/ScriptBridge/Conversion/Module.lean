import ScriptBridge.Conversion.Access
import ScriptBridge.Conversion.Export
import ScriptBridge.Conversion.Literal
import ScriptBridge.Conversion.Loop
import ScriptBridge.Conversion.Operator
import ScriptBridge.Conversion.Statement

/-!
# Converting a module

`defaultCapabilities` is the usual order: imports and exports come first, so that no other capability
sees an export mark.

* `Module.convert`: the statements and the export table of a file.
-/

namespace ScriptBridge.Conversion

open TypeScript

/-- All capabilities in the usual order. -/
def defaultCapabilities : List Capability :=
  [imports, exports, types, literals, identifiers, operators, access, functions, declarations, control,
    statements]

/-- The capability of a name. -/
def capability? (name : String) : Option Capability :=
  defaultCapabilities.find? (·.name == name)

/-- A converted module. -/
structure Module where
  statements : List AiScript.Node
  /-- The exported names, each with the local name it exposes. -/
  exports : List (String × String)

/-- Converts statements to a module. -/
def Module.convert (caps : List Capability) (source : List Node) : ConvertM Module := do
  let statements ← (converter caps (levels source)).statements source
  return { statements, exports := (← get).exports }

/-- The export table as a last statement, if there are exports. -/
def Module.table (m : Module) : List AiScript.Node :=
  if m.exports.isEmpty then [] else [exportTable m.exports]

end ScriptBridge.Conversion
