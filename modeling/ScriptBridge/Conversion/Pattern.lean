import ScriptBridge.Conversion.Capability

/-!
# Patterns

A pattern is expanded into one definition or assignment for each name in it: element `i` of an array
pattern reads `source[i]`, property `k` of an object pattern reads `source.k`, and an inner pattern
reads from there on. The source is made a name first, so that it is evaluated once.

* `expandBinding`: the definitions of a declared pattern.
* `expandAssignment`: the assignments of an assigned pattern.
-/

namespace ScriptBridge.Conversion

open TypeScript

/-- Whether a key can follow a dot. A line feed at its end goes unnoticed. -/
def isDottedKey (key : String) : Bool :=
  let isWordChar (c : Char) : Bool := c.isAlphanum || c == '_'
  match key.toList with
  | [] => false
  | c :: cs =>
    (c.isAlpha || c == '_') &&
      match cs.dropWhile isWordChar with
      | [] | ['\n'] => true
      | _ => false

/-- A property of a value. -/
def member (source : AiScript.Node) (key : String) : AiScript.Node :=
  if isDottedKey key then .prop {} source key else .index {} source (.str {} key)

/-- An element of a value. -/
def element (source : AiScript.Node) (i : Nat) : AiScript.Node :=
  .index {} source (.num {} (.ofNat i))

/-- A definition. -/
def define (name : String) (value : AiScript.Node) (isMutable : Bool) : AiScript.Node :=
  .define {} ⟨name, {}⟩ value isMutable

/-- A name that stands for a value, with the definition that makes it so if there is need of one. -/
def bindSource (value : AiScript.Node) : ConvertM (AiScript.Node × List AiScript.Node) := do
  match value with
  | .ident .. => return (value, [])
  | _ =>
    let temp ← freshName
    return (.ident {} temp, [define temp value false])

/-! ## Declarations -/

/-- Refuses rest elements and defaults. -/
def checkElement (n : Node) (fallback : Option Node) (isRest : Bool) : ConvertM Unit := do
  if isRest then refuse .patternRest n
  if fallback.isSome then refuse .patternDefault n

/-- The key of an element of an object pattern; a name without one is its own key. -/
def patternKey (key : Node) : ConvertM String := do
  match ← orNumeralFault (propertyKey? key) with
  | some text => return text
  | none => refuse .patternKey key

mutual
/-- The definitions of the names in a pattern. -/
def expandBinding (isMutable : Bool) (source : AiScript.Node) :
    Node → ConvertM (List AiScript.Node)
  | .ident i => do
    checkName i
    return [define i.name source isMutable]
  | .arrayPattern _ elements => expandElements isMutable source 0 elements
  | .objectPattern _ elements => expandProperties isMutable source elements
  | n => refuse (.bindingPattern n.kind) n

/-- The definitions of the names in the elements of an array pattern. -/
def expandElements (isMutable : Bool) (source : AiScript.Node) (i : Nat) :
    List Node → ConvertM (List AiScript.Node)
  | [] => return []
  | .bindingElement m key target fallback isRest :: rest => do
    checkElement (.bindingElement m key target fallback isRest) fallback isRest
    let first ← expandBinding isMutable (element source i) target
    return first ++ (← expandElements isMutable source (i + 1) rest)
  | _ :: rest => expandElements isMutable source (i + 1) rest

/-- The definitions of the names in the elements of an object pattern. -/
def expandProperties (isMutable : Bool) (source : AiScript.Node) :
    List Node → ConvertM (List AiScript.Node)
  | [] => return []
  | .bindingElement m key target fallback isRest :: rest => do
    checkElement (.bindingElement m key target fallback isRest) fallback isRest
    let name ← patternKey (key.getD target)
    let first ← expandBinding isMutable (member source name) target
    return first ++ (← expandProperties isMutable source rest)
  | _ :: rest => expandProperties isMutable source rest
end

/-- The definitions of the names in a pattern for a value. -/
def expandDeclaration (isMutable : Bool) (pattern : Node) (value : AiScript.Node) :
    ConvertM (List AiScript.Node) := do
  let (source, made) ← bindSource value
  return made ++ (← expandBinding isMutable source pattern)

/-- A generated name for a parameter or loop variable with a pattern, and the definitions of the names
in the pattern. -/
def bindingParameter (isMutable : Bool) (pattern : Node) :
    ConvertM (String × List AiScript.Node) := do
  let temp ← freshName
  return (temp, ← expandBinding isMutable (.ident {} temp) pattern)

/-! ## Assignments -/

mutual
/-- The assignments to the targets in a pattern. -/
def expandAssignment (c : Converter) (source : AiScript.Node) :
    Node → ConvertM (List AiScript.Node)
  | .parenthesized _ e => expandAssignment c source e
  | .array _ elements => assignElements c source 0 elements
  | .object _ properties => assignProperties c source properties
  | .ident i => do
    checkName i
    return [.assign {} (.ident {} i.name) source]
  | .propertyAccess m target name isOptional => do
    return [.assign {} (← c.expression (.propertyAccess m target name isOptional)) source]
  | .elementAccess m target key isOptional => do
    return [.assign {} (← c.expression (.elementAccess m target key isOptional)) source]
  | .binary m left operator right =>
    let n := Node.binary m left operator right
    if operator == "=" then refuse .patternDefault n else refuse (.assignmentPattern n.kind) n
  | n => refuse (.assignmentPattern n.kind) n

/-- The assignments to the elements of an array pattern. -/
def assignElements (c : Converter) (source : AiScript.Node) (i : Nat) :
    List Node → ConvertM (List AiScript.Node)
  | [] => return []
  | .omitted _ :: rest => assignElements c source (i + 1) rest
  | target :: rest => do
    let first ← expandAssignment c (element source i) target
    return first ++ (← assignElements c source (i + 1) rest)

/-- The assignments to the properties of an object pattern. -/
def assignProperties (c : Converter) (source : AiScript.Node) :
    List Node → ConvertM (List AiScript.Node)
  | [] => return []
  | .shorthand m name fallback :: rest => do
    if fallback.isSome then refuse .patternDefault (.shorthand m name fallback)
    checkName name
    let first : AiScript.Node := .assign {} (.ident {} name.name) (member source name.name)
    return first :: (← assignProperties c source rest)
  | .property _ key target :: rest => do
    let name ← patternKey key
    let first ← expandAssignment c (member source name) target
    return first ++ (← assignProperties c source rest)
  | n :: _ => refuse (.assignmentPattern n.kind) n
end

end ScriptBridge.Conversion
