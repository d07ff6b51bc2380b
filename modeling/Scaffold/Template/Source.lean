import Scaffold.Disk
import Scaffold.Template.Render
import Scaffold.Template.Shipped

/-!
# Where templates come from

A run takes its templates from those that come with the program or from a directory of the files it
works on.

* **Rendering a file** reads the template, renders it, and writes the result if a target is given.
* **A stored template** is a file below the source's directory.
-/

namespace Scaffold.Template

/-- Where templates come from. -/
inductive Source where
  /-- the templates that come with the program -/
  | shipped
  /-- the files of a directory -/
  | folder (path : Path)
  deriving DecidableEq, Repr

/-- The path of a stored template. -/
def Source.path (src : Source) (name : String) : Path :=
  match src with
  | .shipped => Shipped.home / Path.ofString name
  | .folder dir => dir / Path.ofString name

/-- The bytes of a stored template. A name that starts at the root leads out of the source. -/
def Source.bytes? (src : Source) (name : String) : Run (Option ByteArray) :=
  match src, (Path.ofString name).anchor with
  | .shipped, .here => return Shipped.tree.readFile? [] (src.path name)
  | _, _ => Disk.bytes? (src.path name)

/-- Renders the template that bytes from the file at a path hold, if there is such a file. -/
def renderBytes (path : Path) (bytes : Option ByteArray) (ctx : Context) : Run String := do
  match bytes with
  | none => failWith (.noTemplate path)
  | some bytes => return render ctx (← orFail id (Disk.textOf bytes))

/-- Renders the template in a file, and writes the result to the target if there is one. -/
def renderPath (path : Path) (ctx : Context) (target : Option Path) : Run String := do
  let text ← renderBytes path (← Disk.bytes? path) ctx
  match target with
  | none => return text
  | some target =>
    Disk.write target text
    return text

/-- Renders a stored template. -/
def Source.render (src : Source) (name : String) (ctx : Context) : Run String := do
  renderBytes (src.path name) (← src.bytes? name) ctx

/-- Renders a stored template into a file. -/
def Source.emit (src : Source) (name : String) (target : Path) (ctx : Context) : Run Unit := do
  Disk.write target (← src.render name ctx)

end Scaffold.Template
