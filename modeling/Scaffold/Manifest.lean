import Scaffold.Fields
import Scaffold.Json.Writer

/-!
# The manifest

The parts of a project's manifest that the program owns, and everything else in it untouched.

* **Five sections** are typed: scripts, commands on changed files, the two dependency sections, and
  the settings of tools. Two of them may be absent or null.
* **Order is restored.** The manifest remembers the order of its keys, so it is written as it was
  read; a section that was not there is written only when it holds something, after all others.
-/

namespace Scaffold

/-- What to run on changed files: one command, or several. -/
inductive LintTask where
  /-- one command -/
  | command (text : Wide)
  /-- several commands -/
  | commands (texts : List Wide)
  deriving DecidableEq, Repr

/-- A task as a JSON value. -/
def LintTask.toJson : LintTask → Json
  | .command text => .str text
  | .commands texts => .arr (texts.map .str)

/-- The manifest of a project. -/
structure Manifest where
  /-- the scripts by name -/
  scripts : Entries Wide Wide := []
  /-- the tasks on changed files by pattern -/
  lintStaged : Option (Entries LintTask Wide) := none
  /-- the versions of the packages that the application needs -/
  dependencies : Entries Wide Wide := []
  /-- the versions of the packages that its development needs -/
  devDependencies : Entries Wide Wide := []
  /-- the settings of tools by tool -/
  config : Option (Entries Json Wide) := none
  /-- all other members -/
  extra : Entries Json Wide := []
  /-- the keys in the order of the document -/
  keyOrder : List Wide := []
  deriving Repr

namespace Manifest

/-- The keys of the typed sections, in the order in which new ones are written. -/
def sectionKeys : List Wide :=
  ["scripts", "lint-staged", "dependencies", "devDependencies", "config"]

/-! ## Reading -/

/-- Reads an object: its members, or a fault at the place. -/
def readMembers (place : List FieldStep) : Json → Except (List FieldFault) (Entries Json Wide)
  | .obj members => .ok members
  | _ => .error [⟨place, .notObject⟩]

/-- Reads every member of an object, and collects the faults of all. -/
def readEach {α : Type} (place : List FieldStep)
    (read : List FieldStep → Json → Except (List FieldFault) α) :
    Entries Json Wide → Except (List FieldFault) (Entries α Wide)
  | [] => .ok []
  | (key, v) :: rest =>
    match read (place ++ [.key key.shown]) v, readEach place read rest with
    | .ok a, .ok more => .ok ((key, a) :: more)
    | .ok _, .error faults => .error faults
    | .error faults, .ok _ => .error faults
    | .error faults, .error more => .error (faults ++ more)

/-- Reads a string. -/
def readString (place : List FieldStep) : Json → Except (List FieldFault) Wide
  | .str s => .ok s
  | _ => .error [⟨place, .notString⟩]

/-- The strings of a list, or a fault for each item that is none. -/
def readStrings (place : List FieldStep) (i : Nat) :
    List Json → Except (List FieldFault) (List Wide)
  | [] => .ok []
  | v :: rest =>
    match readString (place ++ [.index i]) v, readStrings place (i + 1) rest with
    | .ok s, .ok more => .ok (s :: more)
    | .ok _, .error faults => .error faults
    | .error faults, .ok _ => .error faults
    | .error faults, .error more => .error (faults ++ more)

/-- Reads a task. A value that is neither of its forms has the faults of both. -/
def readTask (place : List FieldStep) : Json → Except (List FieldFault) LintTask
  | .str s => .ok (.command s)
  | .arr items =>
    match readStrings (place ++ [.asList]) 0 items with
    | .ok texts => .ok (.commands texts)
    | .error faults => .error (⟨place ++ [.asString], .notString⟩ :: faults)
  | _ => .error [⟨place ++ [.asString], .notString⟩, ⟨place ++ [.asList], .notList⟩]

/-- Reads a section with `read`; an absent one is empty. -/
def readSection {α : Type} (members : Entries Json Wide) (key : String)
    (read : List FieldStep → Json → Except (List FieldFault) α) :
    Except (List FieldFault) (Entries α Wide) :=
  match members.get? (.text key) with
  | none => .ok []
  | some v => do readEach [.key key] read (← readMembers [.key key] v)

/-- Reads a section that may be absent or null. -/
def readOptionalSection {α : Type} (members : Entries Json Wide) (key : String)
    (read : List FieldStep → Json → Except (List FieldFault) α) :
    Except (List FieldFault) (Option (Entries α Wide)) :=
  match members.get? (.text key) with
  | none => .ok none
  | some .null => .ok none
  | some v => do return some (← readEach [.key key] read (← readMembers [.key key] v))

/-- The faults of a reading. -/
def faultsOf {α : Type} : Except (List FieldFault) α → List FieldFault
  | .ok _ => []
  | .error faults => faults

/-- Reads the sections of a manifest from the members of an object, or reports every fault. -/
def readSections (members : Entries Json Wide) : Except (List FieldFault) Manifest :=
  let scripts := readSection members "scripts" readString
  let lintStaged := readOptionalSection members "lint-staged" readTask
  let dependencies := readSection members "dependencies" readString
  let devDependencies := readSection members "devDependencies" readString
  let config := readOptionalSection members "config" fun _ v => .ok v
  match scripts, lintStaged, dependencies, devDependencies, config with
  | .ok scripts, .ok lintStaged, .ok dependencies, .ok devDependencies, .ok config =>
    .ok {
      scripts, lintStaged, dependencies, devDependencies, config
      extra := members.filter fun (key, _) => !sectionKeys.contains key
      keyOrder := members.keys }
  | _, _, _, _, _ =>
    .error (faultsOf scripts ++ faultsOf lintStaged ++ faultsOf dependencies ++
      faultsOf devDependencies ++ faultsOf config)

/-- Reads a manifest from the members of an object. -/
def ofMembers (members : Entries Json Wide) : Except (List FieldFault) Manifest := do
  checkKeys members
  readSections members

/-! ## Writing -/

/-- A section of texts as a JSON value. -/
def textsToJson (m : Entries Wide Wide) : Json := .obj (m.map fun (key, s) => (key, .str s))

/-- A section that may be absent as a JSON value. -/
def optionalToJson {α : Type} (toJson : α → Json) : Option (Entries α Wide) → Json
  | none => .null
  | some m => .obj (m.map fun (key, a) => (key, toJson a))

/-- The typed sections as JSON values, then all other members. -/
def payload (m : Manifest) : Entries Json Wide :=
  [(.text "scripts", textsToJson m.scripts),
   (.text "lint-staged", optionalToJson LintTask.toJson m.lintStaged),
   (.text "dependencies", textsToJson m.dependencies),
   (.text "devDependencies", textsToJson m.devDependencies),
   (.text "config", optionalToJson id m.config)] ++ m.extra

/-- Whether a section holds nothing: it is null, or an object without members. -/
def isVoid : Json → Bool
  | .null => true
  | .obj members => members.isEmpty
  | _ => false

/-- The manifest as a JSON value: the members of the document in their order, then the sections that
it lacked and that hold something. -/
def toJson (m : Manifest) : Json :=
  let known := m.keyOrder.filterMap fun key => (m.payload.get? key).map (key, ·)
  let new := m.payload.filter fun (key, v) => !m.keyOrder.contains key && !isVoid v
  .obj (known ++ new)

/-- The content of a manifest's file. -/
def toText (m : Manifest) : Wide := m.toJson.toFile

end Manifest

end Scaffold
