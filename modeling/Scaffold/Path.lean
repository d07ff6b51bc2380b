import Scaffold.Text.Search

/-!
# Paths

A path names a place among the files: from the root or from the working directory, through one
directory after another.

* **Normal form.** Empty parts and single dots are left out when a path is read; double dots stay,
  because they mean something only where the directories are known.
* **Two slashes** at the start, and no more than two, are kept apart from one.
* **The null character** may stand in a path as it is written, but in no name of a file.
-/

namespace Scaffold

/-- Splits a text at every slash. -/
def splitSlashes : List Char → List (List Char)
  | [] => [[]]
  | c :: rest =>
    if c == '/' then [] :: splitSlashes rest
    else match splitSlashes rest with
      | [] => [[c]]
      | part :: parts => (c :: part) :: parts

/-- Where a path starts. -/
inductive Path.Anchor where
  /-- the working directory -/
  | here
  /-- the root -/
  | root
  /-- the root, written with two slashes -/
  | doubleRoot
  deriving DecidableEq, Repr

/-- A path in normal form. -/
structure Path where
  /-- where it starts -/
  anchor : Path.Anchor
  /-- the names of the directories on the way, and of the place itself -/
  parts : List String
  deriving DecidableEq, Repr

namespace Path

/-- The anchor that a text begins with. -/
def anchorOf : List Char → Anchor
  | '/' :: '/' :: '/' :: _ => .root
  | '/' :: '/' :: _ => .doubleRoot
  | '/' :: _ => .root
  | _ => .here

/-- Reads a path. -/
def ofString (s : String) : Path :=
  let parts := (splitSlashes s.toList).map String.ofList
  ⟨anchorOf s.toList, parts.filter fun p => p != "" && p != "."⟩

/-- A place, by the names on the way from the root. -/
def ofPlace (place : List String) : Path := ⟨.root, place⟩

/-- The text of a path. -/
def toString (p : Path) : String :=
  let body := "/".intercalate p.parts
  match p.anchor with
  | .here => if p.parts.isEmpty then "." else body
  | .root => "/" ++ body
  | .doubleRoot => "//" ++ body

instance : ToString Path := ⟨toString⟩

/-- The path from `p` on to `q`; a `q` that starts at the root is taken alone. -/
def join (p q : Path) : Path :=
  match q.anchor with
  | .here => ⟨p.anchor, p.parts ++ q.parts⟩
  | _ => q

instance : Div Path := ⟨join⟩

/-- The last name of a path, empty if there is none. -/
def name (p : Path) : String := p.parts.getLast?.getD ""

/-- The path without its last name. -/
def parent (p : Path) : Path := ⟨p.anchor, p.parts.dropLast⟩

/-- Whether a path holds the null character, which no name of a file can hold. -/
def holdsNull (p : Path) : Bool := p.parts.any (·.toList.contains '\x00')

/-- The names from the root on the way to a path, double dots included. -/
def absolute (here : List String) (p : Path) : List String :=
  match p.anchor with
  | .here => here ++ p.parts
  | _ => p.parts

/-- Takes double dots away together with the names before them; above the root there is only the
root. -/
def collapse (parts : List String) : List String :=
  parts.foldl (fun seen part => if part == ".." then seen.dropLast else seen ++ [part]) []

/-- The path from the root without double dots. -/
def resolve (here : List String) (p : Path) : Path := ofPlace (collapse (p.absolute here))

end Path

end Scaffold
