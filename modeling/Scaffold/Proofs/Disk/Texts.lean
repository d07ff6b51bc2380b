import Scaffold.Proofs.Disk.Frame
import Scaffold.Proofs.Text.Lines

/-!
# Reading back a text

A text without carriage returns is read back as it was written, and every text that is read is of
this kind.
-/

namespace Scaffold

namespace Text

theorem decode_toUTF8 (s : String) : decode s.toUTF8 = .ok s := by
  have h : String.fromUTF8? s.toUTF8 = some s := by
    rw [String.fromUTF8?, dif_pos (by simpa using s.isValidUTF8)]
    rfl
  rw [decode, h]

end Text

namespace Disk

variable {s t : Session} {p : Path} {text : String} {c : ByteArray}

theorem textOf_toUTF8 (h : '\r' ∉ text.toList) : textOf text.toUTF8 = .ok text := by
  rw [textOf, Text.decode_toUTF8]
  simp only [Text.foldNewlines_of_not_mem h, String.ofList_toList]

theorem not_mem_of_textOf (h : textOf c = .ok text) : '\r' ∉ text.toList := by
  unfold textOf at h
  split at h
  · cases h
    simp [Text.not_mem_foldNewlines]
  · cases h

theorem textOf_error {e : Failure} (h : textOf c = .error e) : ∃ fault, e = .encoding fault := by
  unfold textOf at h
  split at h
  · cases h
  · cases h
    exact ⟨_, rfl⟩

/-- A path leads to a file that is read as the text. -/
def Reads (p : Path) (text : String) (s : Session) : Prop :=
  ∃ c, s.tree.readFile? s.here p = some c ∧ textOf c = .ok text

theorem perform_require_iff {feature : Option String} :
    (require p feature).perform s = (.ok text, t) ↔ t = s ∧ Reads p text s :=
  perform_require_ok

/-- A value is read exactly if the path leads to a file with a text of that value. -/
theorem perform_requireJson_iff {feature : Option String} {v : Json} :
    (requireJson p feature).perform s = (.ok v, t) ↔
      t = s ∧ ∃ text, Reads p text s ∧ Json.parseCommented text = .ok v := by
  rw [requireJson, Run.perform_bind_ok]
  constructor
  · rintro ⟨text, u, hrequire, hparse⟩
    obtain ⟨rfl, hreads⟩ := perform_require_iff.1 hrequire
    obtain ⟨hparsed, rfl⟩ := Run.perform_orFail_iff.1 hparse
    exact ⟨rfl, text, hreads, hparsed⟩
  · rintro ⟨rfl, text, hreads, hparsed⟩
    exact ⟨text, t, perform_require_iff.2 ⟨rfl, hreads⟩, by rw [hparsed]; rfl⟩

theorem Reads.stays_require {feature : Option String} (h : Reads p text s) :
    Run.Stays (require p feature) text s := by
  obtain ⟨c, hc, htext⟩ := h
  exact Disk.stays_require hc htext

theorem Reads.not_mem (h : Reads p text s) : '\r' ∉ text.toList := by
  obtain ⟨c, -, htext⟩ := h
  exact not_mem_of_textOf htext

theorem Reads.congr (h : Reads p text s) (hst : SameFiles s t) : Reads p text t := by
  obtain ⟨c, hc, htext⟩ := h
  exact ⟨c, by rw [hst.tree, hst.here, hc], htext⟩

theorem Reads.unique {text' : String} (h : Reads p text s) (h' : Reads p text' s) : text = text' := by
  obtain ⟨c, hc, htext⟩ := h
  obtain ⟨c', hc', htext'⟩ := h'
  cases hc.symm.trans hc'
  exact Except.ok.inj (htext.symm.trans htext')

theorem Reads.of_frame {L : List (List String)} {names : List String} (h : Reads p text s)
    (hframe : Frame L s t) (hplain : Plain names) (hp : names <:+ p.parts) (hapart : Apart L names) :
    Reads p text t := by
  obtain ⟨c, hc, htext⟩ := h
  exact ⟨c, readFile?_of_frame hframe hplain hp hapart hc, htext⟩

theorem Holds.reads (h : Holds p text s) (hr : '\r' ∉ text.toList) : Reads p text s :=
  ⟨_, h.bytes, textOf_toUTF8 hr⟩

/-- **A text that is held is what is read.** -/
theorem Holds.stays_require {feature : Option String} (h : Holds p text s)
    (hr : '\r' ∉ text.toList) : Run.Stays (require p feature) text s :=
  Disk.stays_require h.bytes (textOf_toUTF8 hr)

/-! ## Failures of another kind -/

/-- A run that may fail, but not because a string has no encoding. -/
def Encodes {α : Type} (x : Run α) : Prop :=
  Run.FailsWith (fun e => ∀ halves, e ≠ .unencodable halves) x

theorem encodes_write (p : Path) (text : String) : Encodes (write p text) := by
  intro s e he halves
  obtain ⟨problem, q, rfl⟩ := failsWith_write p text s e he
  exact nofun

theorem encodes_textOf (c : ByteArray) : Encodes (orFail id (textOf c)) :=
  Run.FailsWith.orFail fun _ herror => by
    obtain ⟨fault, rfl⟩ := textOf_error herror
    exact fun _ => nofun

theorem encodes_bytes? (p : Path) : Encodes (bytes? p) := fun _ _ h => nomatch h

theorem encodes_require (p : Path) (feature : Option String) : Encodes (require p feature) :=
  (encodes_bytes? p).bind fun bytes? => by
    cases bytes? with
    | none => exact .failWith fun _ => nofun
    | some c => exact encodes_textOf c

theorem encodes_requireJson (p : Path) (feature : Option String) :
    Encodes (requireJson p feature) :=
  (encodes_require p feature).bind fun _ => .orFail fun _ _ _ => nofun

end Disk

end Scaffold
