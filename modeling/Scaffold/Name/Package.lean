import Scaffold.Name.Slug

/-!
# Package names

The names a project may have: an optional scope `@scope/` and a name proper.

* **The grammar.** Scope and name begin with a lower-case letter, a digit or a tilde, and go on with
  these, hyphens, dots and underscores.
* **The length** is at most 214 characters, the scope included.
* **A refusal helps.** Where a slug of the refused text exists, it is offered as a suggestion.
-/

namespace Scaffold.Name

/-- A character that a scope or name may begin with. -/
def isPartStart (c : Char) : Bool := isLowerAlphanumeric c || c == '~'

/-- A character that a scope or name may go on with. -/
def isPartChar (c : Char) : Bool := isPartStart c || c == '-' || c == '.' || c == '_'

/-- A scope without its marks, or a name without its scope. -/
def isPart : List Char → Bool
  | [] => false
  | c :: rest => isPartStart c && rest.all isPartChar

/-- A name proper, or a scope and a name. -/
def isPackageName : List Char → Bool
  | '@' :: s =>
    match s.dropWhile (· != '/') with
    | '/' :: name => isPart (s.takeWhile (· != '/')) && isPart name
    | _ => false
  | s => isPart s

/-- The greatest number of characters of a package name. -/
def maxLength : Nat := 214

/-- Whether a text may be the name of a package. -/
def isAllowed (name : String) : Bool :=
  name.toList.length ≤ maxLength && isPackageName name.toList

/-- Why a text is refused as a project name. -/
inductive Fault where
  /-- nothing is left of it without the white space around it -/
  | empty
  /-- it is no package name; the slug, if there is one, is a suggestion -/
  | invalid (name : String) (suggestion : Option String)
  deriving DecidableEq, Repr

/-- The project name a text stands for: the text without the white space around it. -/
def ofText (text : String) : Except Fault String :=
  let name := Text.trim text
  if name.isEmpty then .error .empty
  else if isAllowed name then .ok name
  else
    let suggestion := slugOf name
    .error (.invalid name (if suggestion.isEmpty then none else some suggestion))

/-- A refusal in words. -/
def Fault.message : Fault → String
  | .empty => "project name must not be empty"
  | .invalid name none => s!"'{name}' is not a valid package name"
  | .invalid name (some suggestion) =>
    s!"'{name}' is not a valid package name (try '{suggestion}')"

end Scaffold.Name
