import Scaffold.Fields
import Scaffold.Name.Package
import Scaffold.Options

/-!
# Reading options

Options are read from the members of a JSON object. Every member is looked at, so that all faults are
reported: those of the known options in their order, then the unknown members in theirs.

* **Truth values** may also be written as the numbers zero and one, and as a handful of words in any
  letter case.
* **Choices** are written with exactly their words.
-/

namespace Scaffold.Options

/-- The words for true. -/
def trueWords : List String := ["1", "on", "t", "true", "y", "yes"]

/-- The words for false. -/
def falseWords : List String := ["0", "off", "f", "false", "n", "no"]

/-- The number of integers of 64 bits that are not negative. -/
def wordLimit : Int := 9223372036854775808

/-- Whether an integer fits into 64 bits. -/
def fitsWord (i : Int) : Bool := -wordLimit ≤ i && i < wordLimit

/-- Whether an integer that is written with a fraction counts as one: the least word does not. -/
def fitsWordStrictly (i : Int) : Bool := -wordLimit < i && i < wordLimit

/-- The truth value of an integer. -/
def truthOfInt (i : Int) : Except FieldProblem Bool :=
  if i == 0 then .ok false else if i == 1 then .ok true else .error .unreadableTruth

/-- Reads a truth value. -/
def readTruth : Json → Except FieldProblem Bool
  | .bool b => .ok b
  | .str (.half _ _ _) => .error .notText
  | .str (.text s) =>
    let word := s.map Char.toLower
    if trueWords.contains word then .ok true
    else if falseWords.contains word then .ok false
    else .error .unreadableTruth
  | .int i => if fitsWord i then truthOfInt i else .error .notTruth
  | .float x =>
    match x.toInt? with
    | some i => if fitsWordStrictly i then truthOfInt i else .error .notTruth
    | none => .error .notTruth
  | _ => .error .notTruth

/-- Reads a word of a closed choice. -/
def readWord {α : Type} (ofWord? : String → Option α) (expected : String) :
    Json → Except FieldProblem α
  | .str (.half _ _ _) => .error .notText
  | .str (.text s) => (ofWord? s).elim (.error (.notOneOf expected)) .ok
  | _ => .error (.notOneOf expected)

/-- Reads a project name. -/
def readName : Json → Except FieldProblem String
  | .str s => (Name.ofText s.shown).mapError fun fault => .refused fault.message
  | _ => .error .notString

/-- An option that may be absent: its value, and the fault if it has one. -/
def field {α : Type} (members : Entries Json Wide) (key : String) (default : α)
    (read : Json → Except FieldProblem α) : α × List FieldFault :=
  match members.get? (.text key) with
  | none => (default, [])
  | some v =>
    match read v with
    | .ok a => (a, [])
    | .error problem => (default, [⟨[.key key], problem⟩])

/-- The project name, which may not be absent. -/
def nameField (members : Entries Json Wide) : String × List FieldFault :=
  if members.contains (.text "project_name") then field members "project_name" "" readName
  else ("", [⟨[.key "project_name"], .missing⟩])

/-- The names of the options. -/
def knownKeys : List Wide :=
  ["project_name", "package_manager", "typescript", "router", "store", "eslint", "css", "unocss",
   "git_hooks"]

/-- Reads the options one after another, or reports every fault. -/
def readFields (members : Entries Json Wide) : Except (List FieldFault) Options :=
  let flag (key : String) (default : Bool) := field members key default readTruth
  let (projectName, e₁) := nameField members
  let (packageManager, e₂) := field members "package_manager" .pnpm
    (readWord PackageManager.ofWord? "'pnpm' or 'npm'")
  let (typescript, e₃) := flag "typescript" true
  let (router, e₄) := flag "router" false
  let (store, e₅) := flag "store" false
  let (eslint, e₆) := flag "eslint" false
  let (css, e₇) := field members "css" .none
    (readWord StyleStrategy.ofWord? "'none', 'sass', 'less' or 'lightningcss'")
  let (unocss, e₈) := flag "unocss" false
  let (gitHooks, e₉) := flag "git_hooks" false
  let unknown := (members.keys.filter (!knownKeys.contains ·)).map
    fun key => (⟨[.key key.shown], .unknown⟩ : FieldFault)
  match e₁ ++ e₂ ++ e₃ ++ e₄ ++ e₅ ++ e₆ ++ e₇ ++ e₈ ++ e₉ ++ unknown with
  | [] => .ok ⟨projectName, packageManager, typescript, router, store, eslint, css, unocss, gitHooks⟩
  | faults => .error faults

/-- Reads options from the members of an object. -/
def read (members : Entries Json Wide) : Except (List FieldFault) Options := do
  checkKeys members
  readFields members

end Scaffold.Options
