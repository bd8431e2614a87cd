import ScriptBridge.Proofs.Typing.Same
import ScriptBridge.Typing.Oracle

/-!
# Tables of types

A `Table` lists types for questions to the oracle, whatever has been asked before. Its entries have
ranks, and `Table.Holds` says when it describes a program: every entry is what the oracle's own rules
make of entries of lower rank, asked of the table and not of a memory. So a table has no entry whose type
depends on itself. It says in addition what the oracle takes for granted when it remembers answers: an
alias gives its name only to a record that is written out for it, and the members of a declared type can
be told from its name.

* `Table`, `Table.ask`: entries, and the questions that they answer.
* `World`, `Declares`: the numbering of a run, and the declared types with their names.
* `Table.Gives`, `Table.Holds`: what makes an entry right.
-/

namespace ScriptBridge.Typing

open ScriptBridge.Binding ScriptBridge.TypeScript

/-- Types for questions. -/
structure Table where
  /-- The names of its records. -/
  names : RecordNames
  /-- The expressions, by their identities. -/
  node : Nat → Node
  /-- The types of expressions, of symbols and of what annotations stand for. -/
  types : Query → Option Ty
  /-- The members of declared object types, by their names. -/
  members : String → Option (List (String × Ty) × Option Ty)
  /-- Where the members of a declared object type come from. -/
  source : String → Option MemberSource
  /-- An entry depends on entries of lower rank only. That of an alias, as a symbol, is between those of
  its uses and that of what it is written as. -/
  rank : Query → Nat

/-- The numbers in a table are read by its own names. -/
def Table.reading (T : Table) : Reading where
  record i name := (T.names[i]?).join = name
  declared _ _ := True

/-- A type, if there is one. -/
def orUnknown : Option Ty → TypeM Ty
  | some t => return t
  | none => throw .outOfFuel

/-- Answers from the entries below a rank. The members of a declared type are laid out in the memory,
where they are looked for. -/
def Table.ask (T : Table) (rank : Nat) : Asker
  | .members id name => do
    if T.rank (.members 0 name) < rank then
      match T.members name with
      | some (properties, index) =>
        modify fun memory =>
          { memory with members := Array.replicate (id + 1) (.known properties index) }
        return .declared id name
      | none => throw .outOfFuel
    else throw .outOfFuel
  | q => if T.rank q < rank then orUnknown (T.types q) else throw .outOfFuel

/-- The memory that a table starts from: nothing is remembered. -/
def Table.start (T : Table) : Memory :=
  { names := T.names }

/-! ## Names of declared types -/

/-- The name of an instance of an interface, by the text of its arguments. -/
def instanceName (program : Program) (id : SymbolId) (key : String) : String :=
  let name := (program.bindings.symbol id).name
  if key = "" then name else name ++ "<" ++ key ++ ">"

/-- The name of a namespace as an object. -/
def spaceName (program : Program) (id : SymbolId) : String :=
  "typeof " ++ (program.bindings.symbol id).name

/-- The name of a module as an object. -/
def moduleName (program : Program) (id : FileId) : String :=
  "typeof import(\"" ++ (program.file id).source.fileName ++ "\")"

/-- The names of the declared types and of the records of a run, by their numbers. -/
structure World where
  names : RecordNames
  labels : Array String

namespace World

/-- The numbers of a run are read by the names of that run. -/
def reading (w : World) : Reading where
  record i name := w.names[i]? = some name
  declared i name := w.labels[i]? = some name

/-- What has been numbered keeps its name. -/
protected def Le (w w' : World) : Prop :=
  w.reading.Le w'.reading

/-- Declared types and records have names that the program gives to such types. -/
structure Arises (w : World) (program : Program) : Prop where
  labels : ∀ (i : ShapeId) name, w.labels[i]? = some name →
    (∃ id, name = spaceName program id) ∨ (∃ id, name = moduleName program id) ∨
      ∃ id key, (program.bindings.symbol id).kind = .interfaceType ∧ name = instanceName program id key
  names : ∀ (i : ShapeId) name, w.names[i]? = some (some name) →
    ∃ id, (program.bindings.symbol id).kind = .aliasType ∧ name = (program.bindings.symbol id).name

end World

/-- The declared types with their names. The arguments of an interface are types of the run. -/
inductive Declares (T : Table) (program : Program) (w : World) : String → MemberSource → Prop
  | space (id : SymbolId) : Declares T program w (spaceName program id) (.space id)
  | file (id : FileId) : Declares T program w (moduleName program id) (.file id)
  | interfaces {id : SymbolId} {args listed : List Ty} {texts : List String} :
      (program.bindings.symbol id).kind = .interfaceType →
      SameAll w.reading T.reading args listed → Ty.texts w.names args = .ok texts →
      Declares T program w (instanceName program id (", ".intercalate texts))
        (.interfaces id (bindParams (interfaceParams (program.bindings.symbol id).declarations) args []))

/-- The same source of members, apart from the numbers in it. -/
inductive SameSource (r s : Reading) : MemberSource → MemberSource → Prop
  | space (id : SymbolId) : SameSource r s (.space id) (.space id)
  | file (id : FileId) : SameSource r s (.file id) (.file id)
  | interfaces {id : SymbolId} {env env' : Env} :
      SameNamed r s env env' → SameSource r s (.interfaces id env) (.interfaces id env')

/-! ## What makes an entry right -/

/-- The alias that a type expression uses, with its parameters, what it is written as and the
arguments. -/
structure AliasUse where
  id : SymbolId
  params : List Node
  type : Node
  args : List Node

/-- The use of an alias that a type expression is. -/
def aliasUse? (program : Program) (env : Env) : Node → Option AliasUse
  | .typeReference m name args =>
    if (env.lookup name).isSome || (args.length = 1 && (name == "Array" || name == "ReadonlyArray")) then
      none
    else
      match program.origin? m.id with
      | some (.symbol id) =>
        let symbol := program.bindings.symbol id
        match symbol.kind, symbol.declaration with
        | .aliasType, .typeAlias _ _ _ params type => some { id, params, type, args }
        | _, _ => none
      | _ => none
  | _ => none

namespace Table

/-- What the rules give from the entries below a rank, apart from the numbers. -/
def Gives (T : Table) (program : Program) (rank : Nat) (rule : Asker → TypeM Ty) (t : Ty) : Prop :=
  ∃ u memory, rule (T.ask rank) program T.start = .ok u memory ∧ Same T.reading T.reading u t

/-- What a type becomes by an alias for it: a record without a name has to be written out in the alias,
so that nothing else has it. -/
inductive Renames (T : Table) (name : String) : Node → Ty → Ty → Prop
  | kept {type : Node} {t u : Ty} :
      (∀ j ps ix, t = .record j ps ix → (T.names[j]?).join ≠ none) → Same T.reading T.reading t u →
      Renames T name type t u
  | given {m : Mark} {members : List Node} {i j : ShapeId} {ps qs : List (String × Ty)}
      {ix jx : Option Ty} :
      (T.names[i]?).join = none → (T.names[j]?).join = some name →
      SameNamed T.reading T.reading ps qs → SameIndex T.reading T.reading ix jx →
      Renames T name (.typeLiteral m members) (.record i ps ix) (.record j qs jx)

/-- The entry for the use of an alias is made of that for what the alias is written as, under the
arguments. -/
def GivesAlias (T : Table) (program : Program) (rank : Nat) (env : Env) (use : AliasUse) (t : Ty) :
    Prop :=
  ∃ args memory u,
    (use.args.mapM fun arg => T.ask rank (.written env arg)) program T.start = .ok args memory ∧
    T.types (.written (bindParams (paramNames use.params) args []) use.type) = some u ∧
    T.rank (.written (bindParams (paramNames use.params) args []) use.type) < T.rank (.symbol use.id) ∧
    T.rank (.symbol use.id) ≤ rank ∧
    T.Renames (program.bindings.symbol use.id).name use.type u t

/-- A table that describes a program. -/
structure Holds (T : Table) (program : Program) : Prop where
  /-- No two expressions have one identity. -/
  node : ∀ {e t}, T.types (.expression e) = some t → T.node e.id = e
  expression : ∀ {e t}, T.types (.expression e) = some t →
    T.Gives program (T.rank (.expression e)) (inferExpression · e) t
  symbol : ∀ {id t}, T.types (.symbol id) = some t →
    T.Gives program (T.rank (.symbol id)) (inferSymbol · id) t
  written : ∀ {env type t}, T.types (.written env type) = some t → aliasUse? program env type = none →
    T.Gives program (T.rank (.written env type)) (writtenType · env type) t
  aliased : ∀ {env type t use}, T.types (.written env type) = some t →
    aliasUse? program env type = some use →
    T.GivesAlias program (T.rank (.written env type)) env use t
  members : ∀ {name ps ix}, T.members name = some (ps, ix) →
    ∃ source qs jx memory, T.source name = some source ∧
      findMembers (T.ask (T.rank (.members 0 name))) source program T.start = .ok (qs, jx) memory ∧
      SameNamed T.reading T.reading qs ps ∧ SameIndex T.reading T.reading jx ix
  /-- Declared types can be told from their names. -/
  source : ∀ {w : World} {name source listed}, w.Arises program → Declares T program w name source →
    T.source name = some listed → SameSource w.reading T.reading source listed
  /-- Interfaces and aliases have names. -/
  named : ∀ {id}, (program.bindings.symbol id).kind = .interfaceType ∨
    (program.bindings.symbol id).kind = .aliasType → (program.bindings.symbol id).name ≠ ""

end Table

end ScriptBridge.Typing
