import ScriptBridge.Project.Path

/-!
# Files

A `FileTree` holds the contents of files by absolute path, under one directory. Directories are those
that the files lie in, and further ones that hold no file.

* `FileTree.isFile`, `FileTree.isDirectory`, `FileTree.read`: what is at a path.
* `decodeText`: the text of a file's content, with every line ending made a line feed.
-/

namespace ScriptBridge

/-- Files under a directory. -/
structure FileTree where
  root : String
  /-- The contents of files, by normalized absolute path. -/
  files : List (String × ByteArray)
  /-- Directories without files, by normalized absolute path. -/
  directories : List String := []
deriving Inhabited

/-- Why a file cannot be read. -/
inductive ReadFailure where
  | missing
  | isDirectory
  /-- A part of the path before the last one is a file. -/
  | throughFile
deriving DecidableEq, Repr

/-- The wording of a failure to read. -/
def ReadFailure.message : ReadFailure → String
  | missing => "No such file or directory"
  | isDirectory => "Is a directory"
  | throughFile => "Not a directory"

namespace FileTree

/-- Whether there is a file at a path. -/
def isFile (t : FileTree) (path : String) : Bool :=
  (t.files.lookup path).isSome

/-- Whether there is a directory at a path. -/
def isDirectory (t : FileTree) (path : String) : Bool :=
  path == t.root || (Path.ancestors t.root).contains path || t.directories.contains path ||
    t.files.any fun (file, _) => (Path.ancestors file).contains path

/-- Whether a path goes through a file. -/
def throughFile (t : FileTree) (path : String) : Bool :=
  (Path.ancestors path).any t.isFile

/-- The content of the file at a path. -/
def read (t : FileTree) (path : String) : Except ReadFailure ByteArray :=
  match t.files.lookup path with
  | some content => .ok content
  | none =>
    if t.isDirectory path then .error .isDirectory
    else if t.throughFile path then .error .throughFile
    else .error .missing

end FileTree

/-- A text with every line ending made a line feed. -/
def unifyLines : List Char → List Char
  | [] => []
  | '\r' :: '\n' :: cs => '\n' :: unifyLines cs
  | '\r' :: cs => '\n' :: unifyLines cs
  | c :: cs => c :: unifyLines cs

/-- The text of a file's content; `none` if it is not one. -/
def decodeText (content : ByteArray) : Option String :=
  (String.fromUTF8? content).map fun s => String.ofList (unifyLines s.toList)

end ScriptBridge
