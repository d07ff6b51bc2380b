import Scaffold.Json.Comments
import Scaffold.Json.Writer
import Scaffold.Run
import Scaffold.Text.Lines

/-!
# The files of a session

What a run does with files: texts and JSON values are read from them and written to them.

* **Reading a text** decodes it and folds its line ends. A file that is not there is a failure that
  names the feature asking for it.
* **Writing a text** makes the directories on the way and leaves line ends alone.
* **A string that is no text** cannot be written, which comes to light when its file has been opened and
  emptied.
* **What is left out.** There are no permissions and no symbolic links, neither names nor files have a
  greatest length, and nothing interrupts an operation: what stands in the tree can be read, and what it
  has a place for can be written.
-/

namespace Scaffold.Disk

/-- The text that bytes from a file stand for. -/
def textOf (bytes : ByteArray) : Except Failure String :=
  match Text.decode bytes with
  | .ok s => .ok (String.ofList (Text.foldNewlines s.toList))
  | .error fault => .error (.encoding fault)

/-- The bytes of the file at a path, if there is one. -/
def bytes? (p : Path) : Run (Option ByteArray) := do
  let s ← get
  return s.tree.readFile? s.here p

/-- The path from the root that a path stands for. -/
def resolved (here : List String) (p : Path) : Except Failure Path :=
  if p.holdsNull then .error (.storage .nullName p) else .ok (p.resolve here)

/-- Whether a path leads to a directory. -/
def isDirectory (p : Path) : Run Bool := do
  let s ← get
  return s.tree.isDirectory s.here p

/-- The text of a file that the seed project should hold, which a feature may ask for. -/
def require (p : Path) (feature : Option String) : Run String := do
  match ← bytes? p with
  | none => failWith (.noSeedFile p feature)
  | some bytes => orFail id (textOf bytes)

/-- Makes the directories on the way to a path. -/
def makeParents (p : Path) : Run Unit := do
  let s ← get
  let (tree, fault) := s.tree.makeDirs s.here p.parent
  set { s with tree := tree }
  match fault with
  | none => pure ()
  | some (problem, path) => failWith (.storage problem path)

/-- Writes a text to a file, and makes the directories on the way. -/
def write (p : Path) (text : String) : Run Unit := do
  makeParents p
  let s ← get
  match s.tree.writeFile s.here p text.toUTF8 with
  | .ok tree => set { s with tree := tree }
  | .error problem => failWith (.storage problem p)

/-- Writes a string to a file. If it has no encoding, the file is left empty. -/
def writeString (p : Path) (s : Wide) : Run Unit := do
  match s.asText with
  | .ok text => write p text
  | .error halves =>
    write p ""
    failWith (.unencodable halves)

/-- The value of a file that is JSON with comments. -/
def requireJson (p : Path) (feature : Option String) : Run Json := do
  let text ← require p feature
  orFail (fun fault => .badDocument p (.syntaxFault fault)) (Json.parseCommented text)

/-- Writes a value to a file. -/
def writeValue (p : Path) (v : Json) : Run Unit := writeString p v.toFile

end Scaffold.Disk
