import Scaffold.Entries
import Scaffold.Decimal.Binary64
import Scaffold.Text.Wide

/-!
# JSON values

The values of manifests and tool settings. Integers are unbounded and apart from the numbers written
with a fraction or an exponent; the members of an object keep their order. Strings and keys need not be
texts.

* **Sameness** compares values and not spellings: `1`, `1.0` and `true` are the same, and so are two
  objects that list the same members in different orders.
-/

namespace Scaffold

/-- Entries as members of an object, whose keys need not be texts. -/
def Entries.textKeys {α : Type} (m : Entries α) : Entries α Wide := m.map fun (k, a) => (.text k, a)

/-- A JSON value. -/
inductive Json where
  /-- the null value -/
  | null
  /-- a truth value -/
  | bool (b : Bool)
  /-- a number without fraction and exponent -/
  | int (i : Int)
  /-- a number with a fraction or an exponent, or one that is not finite -/
  | float (x : Binary64)
  /-- a string -/
  | str (s : Wide)
  /-- a list -/
  | arr (items : List Json)
  /-- an object, its members in order -/
  | obj (members : List (Wide × Json))
  deriving Repr, Inhabited

namespace Json

/-- A truth value as a number. -/
def ofTruth (b : Bool) : Int := if b then 1 else 0

mutual
/-- Whether two values are the same. A list or object that holds what is not a number is the same as
its copy. -/
def same : Json → Json → Bool
  | .null, .null => true
  | .bool a, .bool b => a == b
  | .bool a, .int j => ofTruth a == j
  | .bool a, .float y => y.eqvInt (ofTruth a)
  | .int i, .bool b => i == ofTruth b
  | .int i, .int j => i == j
  | .int i, .float y => y.eqvInt i
  | .float x, .bool b => x.eqvInt (ofTruth b)
  | .float x, .int j => x.eqvInt j
  | .float x, .float y => x.eqv y || (x == .notANumber && y == .notANumber)
  | .str s, .str t => s == t
  | .arr xs, .arr ys => sameItems xs ys
  | .obj ms, .obj ns => ms.length == ns.length && sameMembers ms ns
  | _, _ => false

/-- Whether two lists hold the same values in the same order. -/
def sameItems : List Json → List Json → Bool
  | [], [] => true
  | x :: xs, y :: ys => same x y && sameItems xs ys
  | _, _ => false

/-- Whether every member of the first object is a member of the second. -/
def sameMembers : List (Wide × Json) → List (Wide × Json) → Bool
  | [], _ => true
  | (k, v) :: ms, ns =>
    (match Entries.get? k ns with
      | some w => same v w
      | none => false) && sameMembers ms ns
end

/-- Whether two declarations of one key agree: they are the same, and not the value that differs
even from itself. -/
def agrees : Json → Json → Bool
  | .float .notANumber, _ => false
  | a, b => same a b

/-- Whether a value counts as absent: null, false, a zero, or an empty string, list or object. -/
def isFalsy : Json → Bool
  | .null => true
  | .bool b => !b
  | .int i => i == 0
  | .float x => x.isZero
  | .str s => s.isEmpty
  | .arr items => items.isEmpty
  | .obj members => members.isEmpty

end Json

end Scaffold
