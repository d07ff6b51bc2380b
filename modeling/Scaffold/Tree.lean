import Scaffold.Entries
import Scaffold.Path

/-!
# File trees

The files and directories that a run reads and writes. A tree is known by what stands at each place;
the root is always a directory.

* **Walking.** A path leads somewhere only through directories that exist; `find` says what is there
  or what is in the way.
* **Making directories.** `makeDirs` adds the missing ones on the way to a path and refuses to go
  through a file.
* **Writing** makes the directories first, so a refused write may still have made some.
* **The null character** is in no name, so a path that holds it can be neither made nor written.
-/

namespace Scaffold

/-- What stands at a place. -/
inductive Node where
  /-- a directory -/
  | directory
  /-- a file with its bytes -/
  | file (content : ByteArray)

theorem bytes_eq_of_data {a b : ByteArray} (h : a.data = b.data) : a = b := by
  cases a
  cases b
  exact congrArg ByteArray.mk h

/-- Two nodes are compared by their bytes. -/
instance : DecidableEq Node
  | .directory, .directory => isTrue rfl
  | .directory, .file _ => isFalse nofun
  | .file _, .directory => isFalse nofun
  | .file a, .file b =>
    if h : a.data = b.data then isTrue (congrArg Node.file (bytes_eq_of_data h))
    else isFalse fun e => h (congrArg ByteArray.data (Node.file.inj e))

/-- The files and directories below the root. -/
structure Tree where
  /-- the places in the order of their making, and what stands there -/
  nodes : Entries Node (List String)

namespace Tree

/-- The tree that holds nothing but the root. -/
def empty : Tree := ⟨[]⟩

/-- What stands at a place. -/
def get? (t : Tree) (place : List String) : Option Node :=
  if place.isEmpty then some .directory else t.nodes.get? place

/-- Puts a file or directory at a place. -/
def set (t : Tree) (place : List String) (node : Node) : Tree := ⟨t.nodes.insert place node⟩

theorem get?_set (t : Tree) (place other : List String) (node : Node) (h : place ≠ []) :
    (t.set place node).get? other = if place = other then some node else t.get? other := by
  cases other with
  | nil => simp [get?, h]
  | cons => simp [get?, set, Entries.get?_insert]

/-! ## Walking -/

/-- What a path leads to. -/
inductive Found where
  /-- a directory -/
  | directory (place : List String)
  /-- a file and its bytes -/
  | file (place : List String) (content : ByteArray)
  /-- a free place in a directory -/
  | vacant (place : List String)
  /-- a directory on the way does not exist -/
  | missing
  /-- something on the way is no directory -/
  | blocked

/-- Follows names from a place, through directories only. -/
def findFrom (t : Tree) (place : List String) : List String → Found
  | [] =>
    match t.get? place with
    | some .directory => .directory place
    | some (.file content) => .file place content
    | none => .vacant place
  | part :: rest =>
    match t.get? place with
    | some .directory => findFrom t (if part == ".." then place.dropLast else place ++ [part]) rest
    | some (.file _) => .blocked
    | none => .missing

theorem findFrom_nil_directory {t : Tree} {place : List String}
    (h : t.get? place = some .directory) : t.findFrom place [] = .directory place := by
  simp [findFrom, h]

/-- A walk that ends at a directory passes through a directory at its start. -/
theorem get?_of_findFrom_directory {t : Tree} {place parts q : List String}
    (h : t.findFrom place parts = .directory q) : t.get? place = some .directory := by
  cases parts with
  | nil =>
    rw [findFrom] at h
    split at h <;> simp_all
  | cons part rest =>
    rw [findFrom] at h
    split at h <;> simp_all

/-- What the names from the root lead to. -/
def find (t : Tree) (parts : List String) : Found := t.findFrom [] parts

/-! ## Changing -/

/-- Why the files refuse an operation. -/
inductive Problem where
  /-- a directory on the way does not exist -/
  | missing
  /-- a file stands where a directory is to be made -/
  | exists
  /-- something on the way is no directory -/
  | notDirectory
  /-- a directory stands where a file is to be written -/
  | isDirectory
  /-- the path holds the null character -/
  | nullName
  deriving DecidableEq, Repr

/-- Makes one directory, which may exist already. -/
def makeDir (t : Tree) (here : List String) (p : Path) : Except Problem Tree :=
  if p.holdsNull then .error .nullName
  else match t.find (p.absolute here) with
  | .vacant place => .ok (t.set place .directory)
  | .directory _ => .ok t
  | .file _ _ => .error .exists
  | .missing => .error .missing
  | .blocked => .error .notDirectory

/-- Makes a directory and those missing on the way to it. `fuel` is the number of names of the path,
one of which is taken off for each parent. -/
def makeDirsFrom (t : Tree) (here : List String) (p : Path) :
    Nat → Tree × Option (Problem × Path)
  | 0 =>
    match t.makeDir here p with
    | .ok t => (t, none)
    | .error problem => (t, some (problem, p))
  | fuel + 1 =>
    match t.makeDir here p with
    | .ok t => (t, none)
    | .error .missing =>
      match makeDirsFrom t here p.parent fuel with
      | (t, some fault) => (t, some fault)
      | (t, none) =>
        match t.makeDir here p with
        | .ok t => (t, none)
        | .error problem => (t, some (problem, p))
    | .error problem => (t, some (problem, p))

/-- Makes a directory and those missing on the way to it; a refusal names the path it is about. -/
def makeDirs (t : Tree) (here : List String) (p : Path) : Tree × Option (Problem × Path) :=
  makeDirsFrom t here p p.parts.length

/-- Puts bytes into the file at a path, in a directory that exists. -/
def writeFile (t : Tree) (here : List String) (p : Path) (content : ByteArray) :
    Except Problem Tree :=
  if p.holdsNull then .error .nullName
  else match t.find (p.absolute here) with
  | .vacant place => .ok (t.set place (.file content))
  | .file place _ => .ok (t.set place (.file content))
  | .directory _ => .error .isDirectory
  | .missing => .error .missing
  | .blocked => .error .notDirectory

/-- The bytes of the file at a path. -/
def readFile? (t : Tree) (here : List String) (p : Path) : Option ByteArray :=
  match t.find (p.absolute here) with
  | .file _ content => some content
  | _ => none

/-- Whether a path leads to a directory. -/
def isDirectory (t : Tree) (here : List String) (p : Path) : Bool :=
  match t.find (p.absolute here) with
  | .directory _ => true
  | _ => false

/-- The places of the files and their bytes. -/
def files (t : Tree) : List (List String × ByteArray) :=
  t.nodes.filterMap fun (place, node) =>
    match node with
    | .file content => some (place, content)
    | .directory => none

end Tree

end Scaffold
