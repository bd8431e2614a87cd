import ScriptBridge.Proofs.AiScript.Lexing

/-!
# Trees that can be read back

The text of a tree is read back as that tree only if nothing in it runs on into what stands next to it.
`Apart` says so of one node by the node itself, where it stands and the forms directly inside it, and
`Everywhere` carries such a condition to all nodes of a tree.

* `Site`: where a node stands.
* `Everywhere`: a condition on a node and all nodes inside it.
* `Finite`, `Formed`, `Apart`: what can be written, and what does not run on into its neighbours.
* `Printable`: trees all of whose nodes fit.
-/

namespace ScriptBridge.AiScript

/-- Where a node stands: its position, and whether it is part of a value in a template. -/
structure Site where
  position : Position
  interpolated : Bool := false
deriving DecidableEq, Repr

namespace Site

/-- A place inside an expression. -/
def operand (s : Site) : Site :=
  { s with position := .expression }

/-- A place in a list of statements. -/
def statement (s : Site) : Site :=
  { s with position := .statement }

/-- A place as a body. -/
def body (s : Site) : Site :=
  { s with position := .body }

end Site

/-! ## Conditions on all nodes -/

mutual
/-- A condition on a node and all nodes inside it. -/
def Everywhere (C : Site → Node → Prop) (s : Site) : Node → Prop
  | .tmpl l parts => C s (.tmpl l parts) ∧ EverywhereParts C s parts
  | .arr l items => C s (.arr l items) ∧ EverywhereAll C s.operand items
  | .obj l entries => C s (.obj l entries) ∧ EverywhereEntries C s.operand entries
  | .prop l target name => C s (.prop l target name) ∧ Everywhere C s.operand target
  | .index l target key =>
    C s (.index l target key) ∧ Everywhere C s.operand target ∧ Everywhere C s.operand key
  | .call l target args =>
    C s (.call l target args) ∧ Everywhere C s.operand target ∧ EverywhereAll C s.operand args
  | .unary l op operand => C s (.unary l op operand) ∧ Everywhere C s.operand operand
  | .binary l op left right =>
    C s (.binary l op left right) ∧ Everywhere C s.operand left ∧ Everywhere C s.operand right
  | .fn l params body =>
    C s (.fn l params body) ∧ EverywhereParams C s.operand params ∧ EverywhereAll C s.statement body
  | .block l statements => C s (.block l statements) ∧ EverywhereAll C s.statement statements
  | .cond l test body branches otherwise =>
    C s (.cond l test body branches otherwise) ∧ Everywhere C s.operand test ∧
      Everywhere C s.body body ∧ EverywhereBranches C s branches ∧
      EverywhereOption C s.body otherwise
  | .select l subject arms otherwise =>
    C s (.select l subject arms otherwise) ∧ Everywhere C s.operand subject ∧
      EverywhereArms C s arms ∧ EverywhereOption C s.body otherwise
  | .loop l statements => C s (.loop l statements) ∧ EverywhereAll C s.statement statements
  | .each l item items body =>
    C s (.each l item items body) ∧ Everywhere C s.operand items ∧ Everywhere C s.body body
  | .define l name value isMutable =>
    C s (.define l name value isMutable) ∧ Everywhere C s.operand value
  | .assign l target value =>
    C s (.assign l target value) ∧ Everywhere C s.operand target ∧ Everywhere C s.operand value
  | .update l op target value =>
    C s (.update l op target value) ∧ Everywhere C s.operand target ∧ Everywhere C s.operand value
  | .ret l value => C s (.ret l value) ∧ Everywhere C s.operand value
  | n => C s n

/-- A condition on nodes at one place. -/
def EverywhereAll (C : Site → Node → Prop) (s : Site) : List Node → Prop
  | [] => True
  | n :: ns => Everywhere C s n ∧ EverywhereAll C s ns

/-- A condition on the values among the parts of a template. -/
def EverywhereParts (C : Site → Node → Prop) (s : Site) : List Node → Prop
  | [] => True
  | .str _ _ :: ns => EverywhereParts C s ns
  | n :: ns => Everywhere C ⟨.expression, true⟩ n ∧ EverywhereParts C s ns

/-- A condition on a node that may be missing. -/
def EverywhereOption (C : Site → Node → Prop) (s : Site) : Option Node → Prop
  | none => True
  | some n => Everywhere C s n

/-- A condition on the values of an object. -/
def EverywhereEntries (C : Site → Node → Prop) (s : Site) : List (String × Node) → Prop
  | [] => True
  | (_, n) :: rest => Everywhere C s n ∧ EverywhereEntries C s rest

/-- A condition on the defaults of parameters. -/
def EverywhereParams (C : Site → Node → Prop) (s : Site) : List Param → Prop
  | [] => True
  | .mk _ _ _ fallback :: rest => EverywhereOption C s fallback ∧ EverywhereParams C s rest

/-- A condition on further branches. -/
def EverywhereBranches (C : Site → Node → Prop) (s : Site) : List Branch → Prop
  | [] => True
  | .mk _ test body :: rest =>
    Everywhere C s.operand test ∧ Everywhere C s.body body ∧ EverywhereBranches C s rest

/-- A condition on the arms of a match. -/
def EverywhereArms (C : Site → Node → Prop) (s : Site) : List Arm → Prop
  | [] => True
  | .mk _ pattern body :: rest =>
    Everywhere C s.operand pattern ∧ Everywhere C s.body body ∧ EverywhereArms C s rest
end

/-! ## How a node begins and ends -/

namespace Node

/-- Whether a node is a conditional. -/
def isCond : Node → Bool
  | .cond .. => true
  | _ => false

/-- Whether a node is a string. -/
def isStr : Node → Bool
  | .str .. => true
  | _ => false

/-- Whether a node is an object. -/
def isObj : Node → Bool
  | .obj .. => true
  | _ => false

/-- Whether the text of a node begins with a numeral. -/
def numeralLed : Node → Bool
  | .num _ value => !value.isNegative
  | .prop _ target _ | .index _ target _ | .call _ target _ => target.numeralLed
  | _ => false

/-- Whether a node begins with an object. -/
def objectLed : Node → Bool
  | .obj .. => true
  | .prop _ target _ | .index _ target _ | .call _ target _ | .assign _ target _
  | .update _ _ target _ => target.objectLed
  | _ => false

mutual
/-- Whether a node ends in a conditional without a last branch, which would take the next one. -/
def isOpen : Node → Bool
  | .cond _ _ _ _ otherwise => isOpenElse otherwise
  | .each _ _ _ body => isOpen body
  | .define _ _ value _ | .assign _ _ value | .update _ _ _ value | .ret _ value => isOpen value
  | _ => false

/-- Whether the end of a conditional is open. -/
def isOpenElse : Option Node → Bool
  | none => true
  | some n => isOpen n
end

end Node

/-! ## Conditions on one node -/

/-- A number that can be written. -/
def Finite : Node → Prop
  | .num _ value => value.isFinite = true
  | _ => True

/-- A node of the right form for its place: names can be read, operators exist, keys are unique, and
statements do not stand inside expressions. -/
def Formed (s : Site) : Node → Prop
  | .ident _ name => IsPath name
  | .obj _ entries => (entries.map Prod.fst).Nodup
  | .unary _ op _ => op ∈ ["!", "+", "-"]
  | .binary _ op _ _ => op ∈ binaryOperators
  | .fn _ params _ => ∀ p ∈ params, IsPath p.name.text
  | .each _ item _ _ => IsPath item.text ∧ s.position ≠ .expression
  | .define _ name _ _ => IsPath name.text ∧ s.position ≠ .expression
  | .update _ op _ _ => op ∈ ["+=", "-="] ∧ s.position ≠ .expression
  | .loop .. | .assign .. | .ret .. | .exit _ | .next _ => s.position ≠ .expression
  | .loneParam _ | .loneBranch _ | .loneArm _ | .bare .. => False
  | _ => True

/-- Texts of a template that are not empty and not next to each other; a single text may be empty. -/
def PartsApart (parts : List Node) : Prop :=
  (∃ l, parts = [.str l ""]) ∨
    (parts ≠ [] ∧ (∀ l, .str l "" ∉ parts) ∧
      parts.IsChain fun n m => n.isStr = false ∨ m.isStr = false)

/-- Bodies of a conditional that another branch follows and that do not take it for their own. -/
def BranchesApart (isLast : Bool) : List Branch → Prop
  | [] => True
  | .mk _ _ body :: rest =>
    (rest ≠ [] ∨ isLast = false → body.isOpen = false) ∧ BranchesApart isLast rest

/-- A node without the mark that begins and ends a template. -/
def Markless (_ : Site) : Node → Prop
  | .tmpl .. => False
  | .str _ value => '\x60' ∉ value.toList
  | .obj _ entries => ∀ e ∈ entries, '\x60' ∉ e.1.toList
  | _ => True

/-- A node whose parts do not run on into each other. -/
def PartsStandApart (s : Site) : Node → Prop
  -- The end of a template inside a template is looked for without regard to what is in it.
  | .tmpl _ parts => PartsApart parts ∧ (s.interpolated = true → EverywhereParts Markless s parts)
  | .prop _ target name => target.isCond = false ∧ isSegment name.toList = true
  | .index _ target _ | .call _ target _ | .binary _ _ target _ | .assign _ target _
  | .update _ _ target _ => target.isCond = false
  | .unary _ op operand => op ≠ "!" → operand.numeralLed = false
  | .cond _ _ body branches otherwise =>
    (branches ≠ [] ∨ otherwise.isSome = true → body.isOpen = false) ∧
      BranchesApart otherwise.isNone branches
  | _ => True

/-- A node that does not run on into its neighbours: its parts stand apart, and it is not taken for a
block because it begins with an object. -/
def Apart (s : Site) (n : Node) : Prop :=
  PartsStandApart s n ∧ (s.position ≠ .expression → n.objectLed = true → n.isObj = true)

/-- A node that can be written where it stands and does not run on into its neighbours. -/
def Fits (s : Site) (n : Node) : Prop :=
  Finite n ∧ Formed s n ∧ Apart s n

/-- Statements that can be printed and read back. -/
def Printable (nodes : List Node) : Prop :=
  EverywhereAll Fits ⟨.statement, false⟩ nodes

end ScriptBridge.AiScript
