/-!
# Reading UTF-8

Files hold bytes, and only those that are well-formed UTF-8 are texts. A file that is not is refused
with the place and the kind of its first fault.

* **Reading back.** `decode` accepts exactly the byte sequences that some text is encoded by.
* **The first fault.** `faultFrom` walks over the well-formed characters and stops at the first lead
  byte that does not begin one, together with the continuation bytes that did belong to it.
-/

namespace Scaffold.Text

/-- Why a byte sequence is not UTF-8. -/
inductive Utf8Reason where
  /-- no character begins with the byte -/
  | invalidStart
  /-- a continuation byte is missing, or out of the range its lead byte admits -/
  | invalidContinuation
  /-- the bytes end inside a character -/
  | unexpectedEnd
  deriving DecidableEq, Repr

/-- The first place where a byte sequence stops being UTF-8. -/
structure Utf8Fault where
  /-- the offset of the first faulty byte -/
  offset : Nat
  /-- the lead byte -/
  lead : UInt8
  /-- how many bytes are at fault, the lead byte included -/
  size : Nat
  /-- what is wrong with them -/
  reason : Utf8Reason
  deriving DecidableEq, Repr

/-- The ranges of the bytes that follow a lead byte, or nothing if no character begins with it. -/
def continuationRanges (lead : UInt8) : Option (List (UInt8 × UInt8)) :=
  let tail : UInt8 × UInt8 := (0x80, 0xBF)
  if lead < 0x80 then some []
  else if lead < 0xC2 then none
  else if lead < 0xE0 then some [tail]
  else if lead == 0xE0 then some [(0xA0, 0xBF), tail]
  else if lead == 0xED then some [(0x80, 0x9F), tail]
  else if lead < 0xF0 then some [tail, tail]
  else if lead == 0xF0 then some [(0x90, 0xBF), tail, tail]
  else if lead < 0xF4 then some [tail, tail, tail]
  else if lead == 0xF4 then some [(0x80, 0x8F), tail, tail]
  else none

/-- Matches the bytes after a lead byte with their ranges: how many fit, and the reason why the next
one does not, if there is one that does not. -/
def matchContinuation : List (UInt8 × UInt8) → List UInt8 → Nat × Option Utf8Reason
  | [], _ => (0, none)
  | _ :: _, [] => (0, some .unexpectedEnd)
  | (low, high) :: ranges, b :: rest =>
    if low ≤ b && b ≤ high then
      let (fit, reason) := matchContinuation ranges rest
      (fit + 1, reason)
    else (0, some .invalidContinuation)

/-- The first fault of the bytes that begin at `offset`, of which the first `skip` belong to a
character already read. -/
def faultFrom (offset skip : Nat) : List UInt8 → Option Utf8Fault
  | [] => none
  | b :: rest =>
    match skip with
    | skip + 1 => faultFrom (offset + 1) skip rest
    | 0 =>
      match continuationRanges b with
      | none => some ⟨offset, b, 1, .invalidStart⟩
      | some ranges =>
        match matchContinuation ranges rest with
        | (fit, none) => faultFrom (offset + 1) fit rest
        | (fit, some reason) => some ⟨offset, b, fit + 1, reason⟩

/-- The text that the bytes encode, or their first fault. -/
def decode (bytes : ByteArray) : Except Utf8Fault String :=
  match String.fromUTF8? bytes with
  | some s => .ok s
  | none => .error ((faultFrom 0 0 bytes.toList).getD ⟨0, 0, 1, .invalidStart⟩)

end Scaffold.Text
