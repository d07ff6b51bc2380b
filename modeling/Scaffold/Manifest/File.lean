import Scaffold.Disk
import Scaffold.Manifest

/-!
# The file of a manifest

The manifest of a project is kept in a file of its own, as JSON. Comments in it are read over, and
anything but an object with well-formed sections is refused.
-/

namespace Scaffold.Manifest

/-- The name of the manifest's file. -/
def fileName : String := "package.json"

/-- The manifest in a text that is JSON with comments. -/
def ofText (text : Wide) : Except DocumentProblem Manifest :=
  match Json.parseCommented text with
  | .error fault => .error (.syntaxFault fault)
  | .ok (.obj members) => (ofMembers members).mapError .fields
  | .ok _ => .error .notObject

/-- Reads the manifest at a path. -/
def ofFile (p : Path) : Run Manifest := do
  let text ← Disk.require p none
  orFail (.badDocument p) (ofText text)

end Scaffold.Manifest
