import ScriptBridge.AiScript.Printer
import Mathlib.Data.List.Basic

/-!
# The characters of laid out texts

Items are laid out on one line or on lines of their own; either way the characters are those of the
first item, then for each further item a separator, a gap and the item.
-/

namespace ScriptBridge.AiScript

/-- The characters of further items, each after a separator and a gap. -/
def spreadText (separator gap : List Char) (items : List String) : List Char :=
  items.flatMap fun item => separator ++ (gap ++ item.toList)

/-- The start of a line. -/
def lineGap (level : Nat) : List Char :=
  '\n' :: (indent level).toList

theorem intercalate_cons_toList (separator item : String) (items : List String) :
    (separator.intercalate (item :: items)).toList =
      item.toList ++ items.flatMap fun item => separator.toList ++ item.toList := by
  rw [String.toList_intercalate, List.intercalate]
  induction items generalizing item with
  | nil => simp
  | cons next items ih =>
    have ih := ih next
    simp only [List.map_cons, List.intersperse_cons_cons, List.flatten_cons, List.flatMap_cons] at ih ⊢
    rw [ih, List.append_assoc]

theorem commaList_toList (item : String) (items : List String) :
    (", ".intercalate (item :: items)).toList = item.toList ++ spreadText [','] [' '] items := by
  rw [intercalate_cons_toList]
  rfl

theorem bracketLines_toList (left right separator : String) (level : Nat) (item : String)
    (items : List String) :
    (bracketLines left right separator level (item :: items)).toList =
      left.toList ++ (lineGap (level + 1) ++ item.toList ++
        spreadText separator.toList (lineGap (level + 1)) items ++ (lineGap level ++ right.toList)) := by
  rw [bracketLines, List.map_cons]
  simp only [String.toList_append, intercalate_cons_toList, lineGap, spreadText, List.flatMap_map,
    List.append_assoc, List.cons_append]
  simp

/-- A definition that is not written as a function of its own name. -/
def defineText (level : Nat) (name : Name) (value : Node) (isMutable : Bool) :
    Except PrintError String := do
  return (if isMutable then "var " else "let ") ++ name.text ++ " = " ++
    (← text .expression level value)

end ScriptBridge.AiScript
