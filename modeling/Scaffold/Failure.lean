import Scaffold.Fields
import Scaffold.Tree
import Scaffold.Json.Parser
import Scaffold.Json.Writer
import Scaffold.Text.Utf8

/-!
# Failures

Everything that can end a run, by its cause. The wording of each is in `Failure.message` and nowhere
else.

* **Scaffold failures** are those that the program itself detects; the command line reports them and
  ends with a status of its own. The others are reported as they are.
-/

namespace Scaffold

/-- Why a document is not what it should be. -/
inductive DocumentProblem where
  /-- it is not JSON -/
  | syntaxFault (fault : Json.SyntaxFault)
  /-- it is JSON, but not an object -/
  | notObject
  /-- the list of included files is not a list -/
  | includeNotList
  /-- fields do not have the expected form -/
  | fields (faults : List FieldFault)
  deriving DecidableEq, Repr

/-- Two features that declare one key with different values. -/
structure Disagreement where
  /-- the section that the key belongs to -/
  field : String
  /-- the key -/
  key : String
  /-- the feature that declared it first -/
  firstFeature : String
  /-- the value it declared -/
  firstValue : Json
  /-- the feature that declared it again -/
  secondFeature : String
  /-- the value this one declared -/
  secondValue : Json
  deriving Repr

/-- The options of a command line whose values a call cannot do without. -/
inductive ValueOption where
  /-- the package manager -/
  | packageManager
  /-- the style strategy -/
  | css
  /-- an entry of a template's context -/
  | context
  /-- the file that a rendered template goes to -/
  | output
  deriving DecidableEq, Repr

/-- Why a run ends early. -/
inductive Failure where
  /-- a template does not exist -/
  | noTemplate (path : Path)
  /-- a file that the seed project should hold does not exist; a feature may have asked for it -/
  | noSeedFile (path : Path) (feature : Option String)
  /-- a document is not what it should be -/
  | badDocument (path : Path) (problem : DocumentProblem)
  /-- two features disagree -/
  | disagreement (d : Disagreement)
  /-- nobody declared a key that has a value -/
  | noOwner (key : String)
  /-- the anchor of a patch is not there exactly once -/
  | anchor (path : Path) (fault : Text.AnchorFault)
  /-- providers share names, listed in ascending order -/
  | repeatedProviders (names : List String)
  /-- a provider failed -/
  | provider (reason : String)
  /-- styling was set up although no strategy is chosen -/
  | noStrategy
  /-- a file is not UTF-8 -/
  | encoding (fault : Text.Utf8Fault)
  /-- a string for a file has no encoding -/
  | unencodable (halves : LoneHalves)
  /-- the files refuse an operation on a path -/
  | storage (problem : Tree.Problem) (path : Path)
  /-- an option has no value -/
  | noValue (option : ValueOption)

/-! ## Wording -/

/-- A document problem in words. -/
def DocumentProblem.message : DocumentProblem → String
  | .syntaxFault fault => fault.message
  | .notObject => "expected a JSON object"
  | .includeNotList => "'include' must be a list"
  | .fields faults => faultSummary "ManifestDocument" faults

/-- A disagreement in words. -/
def Disagreement.message (d : Disagreement) : String :=
  s!"{d.field} entry '{d.key}' declared by '{d.firstFeature}' as {d.firstValue.shown} " ++
    s!"and by '{d.secondFeature}' as {d.secondValue.shown}"

/-- A reason against a byte sequence in words. -/
def Text.Utf8Reason.message : Text.Utf8Reason → String
  | .invalidStart => "invalid start byte"
  | .invalidContinuation => "invalid continuation byte"
  | .unexpectedEnd => "unexpected end of data"

/-- A byte in hexadecimal. -/
def byteText (b : UInt8) : String := "0x" ++ String.ofList (Text.hexPadded 2 b.toNat)

/-- A fault of a byte sequence in words. -/
def Text.Utf8Fault.message (f : Text.Utf8Fault) : String :=
  let place :=
    if f.size == 1 then s!"byte {byteText f.lead} in position {f.offset}"
    else s!"bytes in position {f.offset}-{f.offset + f.size - 1}"
  s!"'utf-8' codec can't decode {place}: {f.reason.message}"

/-- Halves of surrogate pairs that stand alone in words. -/
def LoneHalves.message (h : LoneHalves) : String :=
  let place :=
    if h.count == 1 then
      s!"character '\\u{String.ofList (Text.hexPadded 4 h.first)}' in position {h.offset}"
    else s!"characters in position {h.offset}-{h.offset + h.count - 1}"
  s!"'utf-8' codec can't encode {place}: surrogates not allowed"

/-- A storage problem in words: its number, its name and the path it is about, if the path can be
written. -/
def Tree.Problem.message (path : Path) (problem : Tree.Problem) : String :=
  let numbered (number : Nat) (name : String) : String :=
    s!"[Errno {number}] {name}: {Text.quoted path.toString}"
  match problem with
  | .missing => numbered 2 "No such file or directory"
  | .exists => numbered 17 "File exists"
  | .notDirectory => numbered 20 "Not a directory"
  | .isDirectory => numbered 21 "Is a directory"
  | .nullName => "embedded null byte"

/-- An option in words. -/
def ValueOption.word : ValueOption → String
  | .packageManager => "--package-manager"
  | .css => "--css"
  | .context => "--context"
  | .output => "--output"

/-- A failure in words. -/
def Failure.message : Failure → String
  | .noTemplate path => s!"template not found: {path}"
  | .noSeedFile path feature =>
    let owner := match feature with
      | some name => if name.isEmpty then "" else s!" (required by '{name}')"
      | none => ""
    s!"expected file does not exist: {path}{owner}"
  | .badDocument path problem => s!"failed to parse {path}: {problem.message}"
  | .disagreement d => d.message
  | .noOwner key => Text.quoted key
  | .anchor path fault =>
    s!"expected exactly one match of {Text.quoted fault.pattern} in {path}, found {fault.found}"
  | .repeatedProviders names =>
    let list := ", ".intercalate names
    s!"providers declared more than once: {list}"
  | .provider reason => reason
  | .noStrategy => "no style strategy is chosen"
  | .encoding fault => fault.message
  | .unencodable halves => halves.message
  | .storage problem path => problem.message path
  | .noValue option => s!"{option.word} has no value"

/-- Whether a failure is one that the program itself detects. -/
def Failure.isScaffold : Failure → Bool
  | .noTemplate _ => true
  | .noSeedFile _ _ => true
  | .badDocument _ _ => true
  | .disagreement _ => true
  | .anchor _ _ => true
  | _ => false

end Scaffold
