import ScriptBridge.Data.Outcome
import ScriptBridge.Proofs.TypeScript.FinishStatements

/-!
# Every text is parsed to an end

The tokens of a text weigh no more than the text is long, and `parseFrom` gives more levels of nesting than
that takes. So its levels are never used up: a text is a file, or it is told what is wrong with its
grammar, or a numeric literal type in it has no value. The parser always stands on one of its tokens, so
it never asks for one behind the last, and whatever a repetition repeats takes a token or fails, so that
each of them goes round no more often than there are tokens.

What is said of a fault is that it is one of grammar, or that some number among the tokens has no value;
where the fault is placed is not said here.

* `Rules.Items`: what the repetitions of the grammar repeat.
* `sourceFile_settles`: the tokens of every text.
-/

namespace ScriptBridge.TypeScript

open ScriptBridge.TypeScript.Parser

/-- What the repetitions of the grammar repeat: each item takes a token or ends in a fault. -/
structure Rules.Items (n : Nat) (r : Rules) : Prop where
  statement : Finishes 1 (n - 3) r.statement
  switchClause : Finishes 1 n r.switchClause
  variableDeclaration : Finishes 1 n r.variableDeclaration
  enumMember : Finishes 1 n r.enumMember
  heritageType : Finishes 1 n r.heritageType
  importSpecifier : Finishes 1 n Rules.importSpecifier
  exportSpecifier : Finishes 1 n Rules.exportSpecifier
  parameter : Finishes 1 n r.parameter
  typeParameter : Finishes 1 n r.typeParameter
  objectElement : Finishes 1 n r.objectElement
  bindingName : Finishes 1 (n - 1) r.bindingName
  argument : Finishes 1 (n - 1) r.argument
  objectMember : Finishes 1 n r.objectMember
  assignment : Finishes 1 (n - 1) r.assignment
  type : Finishes 1 (n - 1) r.type
  typeMember : Finishes 1 n r.typeMember
  tupleElement : Finishes 1 (n - 1) r.tupleElement
  intersectionType : Finishes 1 n r.intersectionType
  operatorType : Finishes 1 n r.operatorType

theorem Rules.Finishing.items {r : Rules} {n : Nat} (h : r.Finishing n) : r.Items n where
  statement := h.statement
  switchClause := h.switchClause
  variableDeclaration := h.variableDeclaration
  enumMember := h.enumMember
  heritageType := h.heritageType
  importSpecifier := Rules.Finishing.importSpecifier
  exportSpecifier := Rules.Finishing.exportSpecifier
  parameter := h.parameter
  typeParameter := h.typeParameter
  objectElement := h.objectElement
  bindingName := h.bindingName
  argument := h.argument
  objectMember := h.objectMember
  assignment := h.assignment
  type := h.type
  typeMember := h.typeMember
  tupleElement := h.tupleElement
  intersectionType := h.joined h.operatorType _ _
  operatorType := h.operatorType

section
variable {r : Rules} {n k : Nat}

theorem statementsToEnd_finishes (h : r.Finishing n) {m : Nat} (hk : k ≤ n - 3) (hm : k ≤ 3 * m + 2) :
    Finishes 0 k (statementsToEnd r m) := by
  induction m generalizing k with
  | zero => exact .of_lt (by omega)
  | succ m ih =>
    refine .current fun _ => Finishes.atToken (.ite (.pure []) ((h.statement.mono hk).bind fun _ => ?_))
    exact (ih (by omega) (by omega)).bind fun _ => .pure _

theorem sourceFile_finishes (h : r.Finishing n) (fileName text : String) :
    Finishes 0 (n - 3) (sourceFile r fileName text) := by
  refine (statementsToEnd_finishes h (Nat.le_refl _) (by rw [h.bound]; omega)).bind fun _ => ?_
  exact .current fun _ => (Finishes.pure _).atToken

end

/-- A text whose tokens are known is parsed to an end, with the levels of nesting that `parseFrom` gives or
with more. -/
theorem sourceFile_settles {text : String} {tokens : List Token} (h : tokenize text = .ok tokens)
    (fileName : String) (firstId : Nat) {n : Nat} (hn : 8 * text.length + 64 ≤ n) :
    Outcome 0 { tokens := tokens.toArray, nextId := firstId }
        (sourceFile (rules n) fileName text { tokens := tokens.toArray, nextId := firstId }) ∧
      (∀ m, (rules m).Items m) ∧ parseFrom firstId fileName text ≠ .error (.parse .outOfFuel) := by
  have hload : ({ tokens := tokens.toArray, nextId := firstId } : ParserState).load ≤ text.length + 1 :=
    weight_of_tokenize h
  have hends {m : Nat} (hm : 8 * text.length + 64 ≤ m) :=
    sourceFile_finishes (finishing_rules m) fileName text _ (standing_of_tokenize h firstId) (by omega)
  refine ⟨hends hn, fun m => (finishing_rules m).items, ?_⟩
  have hrun := hends (Nat.le_refl _)
  simp only [parseFrom, h]
  generalize sourceFile (rules (8 * text.length + 64)) fileName text _ = result at hrun
  cases hrun <;> simp

/-- A numeric literal type without digits, before a list of type arguments that ends in a split operator. -/
def digitless : String :=
  "let a: b<0x>=c;"

theorem sourceFile_settles_digitless :
    ∃ tokens, tokenize digitless = .ok tokens ∧ tokens.length = 10 ∧
      Outcome 0 { tokens := tokens.toArray, nextId := 0 }
        (sourceFile (rules 256) "main.ts" digitless { tokens := tokens.toArray, nextId := 0 }) ∧
      (∀ m, (rules m).Items m) ∧ parseFrom 0 "main.ts" digitless ≠ .error (.parse .outOfFuel) := by
  have hread : succeedsWith (tokenize digitless) (fun tokens => tokens.length == 10) = true := by
    decide +kernel
  obtain ⟨tokens, htokens, hlength⟩ := succeedsWith_iff.mp hread
  exact ⟨tokens, htokens, beq_iff_eq.mp hlength, sourceFile_settles htokens "main.ts" 0 (by decide)⟩

/-- The numeral is what ends it. -/
example :
    (match parse "main.ts" digitless with
      | .ok _ => false
      | .error e => e == .parse (.numeral .malformed)) = true := by
  decide +kernel

end ScriptBridge.TypeScript
