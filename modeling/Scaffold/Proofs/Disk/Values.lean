import Scaffold.Proofs.Disk.Texts
import Scaffold.Proofs.Json.Plain
import Scaffold.Proofs.Json.RoundTrip

/-!
# Reading back a value

A value that was written to a file is what is read from the file: decoding finds the text that was
encoded, folding line ends finds no carriage return, taking out comments finds none, and the JSON
reader undoes the writer.

* **Whether the write succeeds** has nothing to do with the value if it is plain. The files decide it.
* **Numbers that are not integers** are read back as far as writing and reading them changes nothing.
-/

namespace Scaffold.Disk

open Run

variable {s t : Session} {p : Path} {text : String} {v : Json}

/-- A text without carriage returns is read after it was written. -/
theorem reads_of_write (hr : '\r' ∉ text.toList) (h : (write p text).perform s = (.ok (), t)) :
    Reads p text t :=
  ⟨_, (bytes_of_write h).2, textOf_toUTF8 hr⟩

/-- A written value is read back, comments and line ends notwithstanding. -/
theorem perform_requireJson_of_reads (hsound : v.Sound) (htext : v.toFile = .text text)
    (h : Reads p text s) (feature : Option String) :
    (requireJson p feature).perform s = (.ok v.reread, s) :=
  perform_requireJson_iff.2 ⟨rfl, text, h, by rw [← htext, Json.parseCommented_toFile hsound]⟩

/-- Whether bytes can be put into a file does not depend on the bytes. -/
theorem writeFile_congr (tree : Tree) (here : List String) (p : Path) (c c' : ByteArray) :
    (tree.writeFile here p c).map (fun _ => ()) = (tree.writeFile here p c').map fun _ => () := by
  unfold Tree.writeFile
  split
  · rfl
  · split <;> rfl

/-- **Whether a write succeeds does not depend on the text.** -/
theorem perform_write_congr (p : Path) (text text' : String) (s : Session) :
    ((write p text).perform s).1 = ((write p text').perform s).1 := by
  rw [write_eq, write_eq, perform_bind, perform_bind]
  rcases (makeParents p).perform s with ⟨_ | _, u⟩
  · rfl
  · have houtcome (text : String) : ((put p text).perform u).1 =
        ((u.tree.writeFile u.here p text.toUTF8).map fun _ => ()).mapError (.storage · p) := by
      rcases put_cases p text u with ⟨tree, hw, hput⟩ | ⟨problem, hw, hput⟩ <;> rw [hput, hw] <;> rfl
    change ((put p text).perform u).1 = ((put p text').perform u).1
    rw [houtcome, houtcome, writeFile_congr]

/-- **Reading undoes writing.** A file that a value was written to is read as that value, with the
members of every object in their order; and the write of a plain value succeeds wherever any text can be
written. The hypothesis on numbers holds of every value that has none but integers. -/
theorem requireJson_after_writeValue (hsound : v.Sound) (hnumbers : ∀ x ∈ v.floats, x.reread = x)
    (p : Path) (feature : Option String) (s : Session) :
    (writeValue p v >>= fun _ => requireJson p feature).perform s =
        (writeValue p v >>= fun _ => pure v).perform s ∧
      (v.Plain → ∀ text, ((writeValue p v).perform s).1 = ((write p text).perform s).1) := by
  constructor
  · rcases hwrite : (writeValue p v).perform s with ⟨e | _, t⟩
    · rw [perform_bind_of_error hwrite, perform_bind_of_error hwrite]
    · obtain ⟨content, hcontent, hwritten⟩ := perform_writeString_ok.1 hwrite
      have hread := reads_of_write (Json.not_mem_of_toFile hsound hcontent) hwritten
      rw [perform_bind_of_ok hwrite, perform_bind_of_ok hwrite,
        perform_requireJson_of_reads hsound hcontent hread, Json.reread_of_floats v hnumbers,
        perform_pure]
  · intro hplain text
    obtain ⟨content, hcontent⟩ := Json.exists_toFile_eq_iff.2 hplain
    rw [writeValue, hcontent]
    exact perform_write_congr p content text s

/-- A value whose strings look like comments, line ends and closing marks. -/
def trickyValue : Json :=
  .obj [("z // */", .arr [.int (-12), .null, .str "\"\\ /* \r\n \u2028"]), ("a", .obj [])]

/-- The value is written to a file in an empty directory and read back. -/
theorem requireJson_after_writeValue_tricky :
    trickyValue.Sound ∧ (∀ x ∈ trickyValue.floats, x.reread = x) ∧ trickyValue.Plain ∧
      ((writeValue ⟨.here, ["data.json"]⟩ trickyValue).perform ⟨.empty, [], []⟩).1.isOk = true ∧
      (writeValue ⟨.here, ["data.json"]⟩ trickyValue >>= fun _ =>
          requireJson ⟨.here, ["data.json"]⟩ none).perform ⟨.empty, [], []⟩ =
        (writeValue ⟨.here, ["data.json"]⟩ trickyValue >>= fun _ => pure trickyValue).perform
          ⟨.empty, [], []⟩ := by
  have hsound : trickyValue.Sound :=
    ⟨by decide, ⟨trivial, trivial, trivial, trivial⟩, ⟨by decide, trivial⟩, trivial⟩
  have hnumbers : ∀ x ∈ trickyValue.floats, x.reread = x := nofun
  exact ⟨hsound, hnumbers, by decide, by decide +kernel,
    (requireJson_after_writeValue hsound hnumbers _ none _).1⟩

end Scaffold.Disk
