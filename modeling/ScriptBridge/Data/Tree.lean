import ScriptBridge.Number.Layout

/-!
# Trees of plain data

A `Tree` is a listing of some structure: texts, numbers, lists and records with named fields in order.
`Tree.json` writes it as JSON over several lines, ASCII only.
-/

namespace ScriptBridge

/-- Plain data. -/
inductive Tree where
  | null
  | bool (value : Bool)
  | nat (value : Nat)
  | num (value : Double)
  | str (value : String)
  | list (items : List Tree)
  | record (fields : List (String × Tree))
  /-- A table from texts, in order of insertion. -/
  | table (entries : List (String × Tree))

namespace Tree

/-- Numbers in JSON: always with a point or an exponent, positional from `1e-4` to below `1e16`. -/
def numberLayout : Layout :=
  { whole := .shortest, least := -4, greatest := 15, exponentWidth := 2, pointZero := true }

/-- A number as JSON writers spell it, with words for the values that have no digits. -/
def numberText (x : Double) : String :=
  if x.isNaN then "NaN"
  else (if x.negative then "-" else "") ++
    if x.isInfinite then "Infinity" else numberLayout.writeMagnitude x

/-- Four hexadecimal digits after `\u`. -/
def unitEscape (n : Nat) : List Char :=
  let ds := Nat.toDigits 16 n
  '\\' :: 'u' :: (List.replicate (4 - ds.length) '0' ++ ds)

/-- A character inside quotes; all but printable ASCII is escaped, by UTF-16 units. -/
def quoteChar (c : Char) : List Char :=
  if c == '"' then ['\\', '"']
  else if c == '\\' then ['\\', '\\']
  else if c == '\n' then ['\\', 'n']
  else if c == '\r' then ['\\', 'r']
  else if c == '\t' then ['\\', 't']
  else if c == '\x08' then ['\\', 'b']
  else if c == '\x0c' then ['\\', 'f']
  else
    let n := c.toNat
    if 0x20 ≤ n ∧ n < 0x7f then [c]
    else if n < 0x10000 then unitEscape n
    else unitEscape (0xd800 + (n - 0x10000) / 0x400) ++ unitEscape (0xdc00 + (n - 0x10000) % 0x400)

/-- A JSON string. -/
def quote (s : String) : String :=
  String.ofList ('"' :: s.toList.flatMap quoteChar ++ ['"'])

/-- The start of a line, two blanks per level. -/
def newline (level : Nat) : String :=
  String.ofList ('\n' :: List.replicate (2 * level) ' ')

/-- Items between brackets, one per line; nothing between the brackets if there are none. -/
def bracketed (left right : String) (level : Nat) (items : List String) : String :=
  if items.isEmpty then left ++ right
  else left ++ newline (level + 1) ++ ("," ++ newline (level + 1)).intercalate items ++
    newline level ++ right

mutual
/-- A tree as JSON, `level` levels deep. -/
def jsonAt (level : Nat) : Tree → String
  | null => "null"
  | bool value => if value then "true" else "false"
  | nat value => toString value
  | num value => numberText value
  | str value => quote value
  | list items => bracketed "[" "]" level (jsonItems (level + 1) items)
  | record fields => bracketed "\x7b" "\x7d" level (jsonFields (level + 1) fields)
  | table entries => bracketed "\x7b" "\x7d" level (jsonFields (level + 1) entries)

def jsonItems (level : Nat) : List Tree → List String
  | [] => []
  | t :: ts => jsonAt level t :: jsonItems level ts

def jsonFields (level : Nat) : List (String × Tree) → List String
  | [] => []
  | (key, t) :: rest => (quote key ++ ": " ++ jsonAt level t) :: jsonFields level rest
end

/-- A tree as JSON. -/
def json (t : Tree) : String :=
  jsonAt 0 t

/-- A list of trees. -/
def ofList {α : Type} (f : α → Tree) (xs : List α) : Tree :=
  list (xs.map f)

end Tree

end ScriptBridge
