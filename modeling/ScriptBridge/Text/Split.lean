/-!
# Splitting a text

`splitAt mark` cuts a text at every occurrence of a character. The pieces joined by that character
are the text.
-/

namespace ScriptBridge

/-- The pieces between the occurrences of a character. -/
def splitChars (mark : Char) : List Char → List (List Char)
  | [] => [[]]
  | c :: cs =>
    if c = mark then [] :: splitChars mark cs
    else
      match splitChars mark cs with
      | [] => [[c]]
      | first :: rest => (c :: first) :: rest

/-- The pieces of a text between the occurrences of a character. -/
def splitAt (mark : Char) (s : String) : List String :=
  (splitChars mark s.toList).map String.ofList

end ScriptBridge
