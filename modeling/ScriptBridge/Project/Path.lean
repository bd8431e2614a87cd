import ScriptBridge.Text.Split

/-!
# Paths

Paths are texts with `/` between their parts. `normalize` gives each place one spelling: no empty
parts, no `.`, and no `..` except in front of a relative path.

* `absolute`: a path seen from a directory.
* `directory`, `baseName`, `stem`: parts of a path.
-/

namespace ScriptBridge.Path

/-- Two paths one after the other; an absolute one starts anew. -/
def join (base path : String) : String :=
  if path.startsWith "/" then path
  else if base.isEmpty || base.endsWith "/" then base ++ path
  else base ++ "/" ++ path

/-- The slashes in front of an absolute path: one, or two if there are exactly two. -/
def rootMark (path : String) : String :=
  if path.startsWith "//" && !path.startsWith "///" then "//"
  else if path.startsWith "/" then "/"
  else ""

/-- Adds a part to normalized parts, the last one first. -/
def addPart (isAbsolute : Bool) (parts : List String) (part : String) : List String :=
  if part == "" || part == "." then parts
  else if part != ".." then part :: parts
  else
    match parts with
    | [] => if isAbsolute then [] else [part]
    | last :: rest => if last == ".." then part :: parts else rest

/-- The one spelling of a path. -/
def normalize (path : String) : String :=
  let root := rootMark path
  let parts := (splitAt '/' path).foldl (addPart (!root.isEmpty)) []
  let text := root ++ "/".intercalate parts.reverse
  if text.isEmpty then "." else text

/-- The place of a path as seen from a directory. -/
def absolute (directory path : String) : String :=
  normalize (join directory path)

/-- A path cut after its last slash. -/
def splitLast (path : String) : String × String :=
  match (splitAt '/' path).reverse with
  | [] => ("", "")
  | [last] => ("", last)
  | last :: front => ("/".intercalate front.reverse ++ "/", last)

/-- The directory part of a path, without slashes at its end unless it has nothing else. -/
def directory (path : String) : String :=
  let front := (splitLast path).1
  let cut := String.ofList (front.toList.reverse.dropWhile (· == '/')).reverse
  if cut.isEmpty then front else cut

/-- The last part of a path. -/
def baseName (path : String) : String :=
  (splitLast path).2

/-- The last part of a path without its extension; dots in front do not begin one. -/
def stem (path : String) : String :=
  let name := (baseName path).toList
  let dots := name.takeWhile (· == '.')
  let reversed := (name.dropWhile (· == '.')).reverse
  if reversed.contains '.' then
    String.ofList (dots ++ ((reversed.dropWhile (· != '.')).drop 1).reverse)
  else String.ofList name

/-- The directories that a normalized absolute path lies in, from the root on. -/
def ancestors (path : String) : List String :=
  let parts := (splitAt '/' path).dropLast
  (List.range parts.length).map fun n =>
    if n = 0 then "/" else "/".intercalate (parts.take (n + 1))

end ScriptBridge.Path
