import Scaffold.Proofs.Entries
import Scaffold.Proofs.Json.Written
import Scaffold.Proofs.Outcomes

/-!
# What the parser reads is sound

Every value that a JSON text is read as is sound: of several members with one key only one is left,
and numbers are rounded to numbers of the format. The invariant is kept by each token.
-/

namespace Scaffold.Json

/-- The members of an object that is read: each key occurs once, and all values are sound. -/
def SoundEntries (members : Entries Json Wide) : Prop :=
  members.keys.Nodup ∧ ∀ e ∈ members, e.2.Sound

theorem sound_obj {members : Entries Json Wide} : (obj members).Sound ↔ SoundEntries members := by
  rw [Sound, soundMembers_iff]
  rfl

theorem sound_arr {items : List Json} : (arr items).Sound ↔ ∀ v ∈ items, v.Sound := by
  rw [Sound, soundItems_iff]

theorem soundEntries_nil : SoundEntries [] := ⟨List.nodup_nil, nofun⟩

theorem SoundEntries.insert {members : Entries Json Wide} {v : Json} (h : SoundEntries members)
    (hv : v.Sound) (k : Wide) : SoundEntries (members.insert k v) := by
  refine ⟨Entries.nodup_keys_insert h.1, fun e he => ?_⟩
  rcases Entries.mem_insert he with rfl | he
  · exact hv
  · exact h.2 e he

/-! ## Tokens -/

/-- A token whose value, if it has one, is sound. -/
def Token.Sound : Token → Prop
  | .atom v => v.Sound
  | _ => True

theorem sound_readMagnitude (negative : Bool) (s : List Char) :
    (readMagnitude negative s).2.Sound := by
  unfold readMagnitude
  extract_lets
  split
  · trivial
  split
  · trivial
  · exact Binary64.fits_ofDecimal _ _ _

theorem sound_of_mem_words : ∀ w ∈ words, w.2.Sound := by
  intro w hw
  simp only [words, List.mem_cons, List.not_mem_nil, or_false] at hw
  rcases hw with rfl | rfl | rfl | rfl | rfl | rfl
  · trivial
  · trivial
  · trivial
  · exact .notANumber
  · exact .infinity _
  · exact .infinity _

theorem sound_readAtom (s : List Char) : (readAtom s).2.Sound := by
  unfold readAtom
  split
  · rename_i r hword
    unfold readWord at hword
    obtain ⟨w, hw, rfl⟩ := Option.map_eq_some_iff.1 hword
    exact sound_of_mem_words w (List.mem_of_find?_eq_some hw)
  · split
    · exact sound_readMagnitude _ _
    · exact sound_readMagnitude _ _

variable {γ : Type} [Letter γ]

theorem sound_readText (size : Nat) (acc : List CodePoint) (s : List γ) :
    (readText size acc s).2.Sound := by
  fun_induction readText size acc s <;> trivial

theorem sound_readToken (c : γ) (rest : List γ) : (readToken c rest).2.Sound := by
  unfold readToken
  split
  · trivial
  split
  all_goals first | trivial | exact sound_readText _ _ _ | exact sound_readAtom _

theorem sound_of_mem_tokens (s : List γ) : ∀ e ∈ tokens s, e.2.Sound := by
  fun_induction tokens s with
  | case1 => exact List.forall_mem_nil _
  | case2 c rest size token hread ih =>
    have htoken : token.Sound := by
      have := sound_readToken c rest
      rwa [hread] at this
    intro e he
    rcases List.mem_cons.1 he with rfl | he
    · exact htoken
    · split at he
      · exact ih e he
      · cases he

/-! ## The machine -/

/-- What an open list or object holds so far is sound. -/
def Frame.Sound : Frame → Prop
  | .items before => ∀ v ∈ before, v.Sound
  | .member before _ => SoundEntries before

/-- What has been read of the innermost list, object or value is sound. -/
def Mode.Sound : Mode → Prop
  | .value | .itemOrEnd => True
  | .key before _ | .colon before _ => SoundEntries before
  | .after v => v.Sound

/-- Everything that has been read so far is sound. -/
structure Reading.Sound (r : Reading) : Prop where
  /-- what the open lists and objects hold -/
  frames : ∀ f ∈ r.frames, f.Sound
  /-- what has been read last -/
  mode : r.mode.Sound

theorem sound_beginValue {frames : List Frame} {t : Token} {r : Reading}
    (hframes : ∀ f ∈ frames, f.Sound) (ht : t.Sound) (h : beginValue frames t = .ok r) :
    r.Sound := by
  cases t <;> cases h
  · exact ⟨hframes, soundEntries_nil⟩
  · exact ⟨hframes, trivial⟩
  · exact ⟨hframes, ht⟩
  · exact ⟨hframes, trivial⟩

theorem sound_endValue {frames : List Frame} {t : Token} {v : Json} {r : Reading}
    (hframes : ∀ f ∈ frames, f.Sound) (hv : v.Sound) (h : endValue v frames t = .ok r) :
    r.Sound := by
  cases frames with
  | nil => cases h
  | cons f frames =>
    have hf := hframes f (.head _)
    have hrest (g : Frame) (hg : g ∈ frames) : g.Sound := hframes g (.tail _ hg)
    cases f with
    | items before =>
      have hall : ∀ w ∈ v :: before, w.Sound := by
        intro w hw
        rcases List.mem_cons.1 hw with rfl | hw
        · exact hv
        · exact hf w hw
      cases t <;> cases h
      · refine ⟨hrest, sound_arr.2 fun w hw => hall w (List.mem_reverse.1 hw)⟩
      · refine ⟨fun g hg => ?_, trivial⟩
        rcases List.mem_cons.1 hg with rfl | hg
        · exact hall
        · exact hrest g hg
    | member before key =>
      have hall : SoundEntries (before.insert key v) := hf.insert hv key
      cases t <;> cases h
      · exact ⟨hrest, sound_obj.2 hall⟩
      · exact ⟨hrest, hall⟩

/-- **Each token keeps what is read sound.** -/
theorem Reading.Sound.step {r r' : Reading} {t : Token} (hr : r.Sound) (ht : t.Sound)
    (h : r.step t = .ok r') : r'.Sound := by
  obtain ⟨frames, mode⟩ := r
  obtain ⟨hframes, hmode⟩ := hr
  have hopen {f : Frame} (hf : f.Sound) : ∀ g ∈ f :: frames, g.Sound := by
    intro g hg
    rcases List.mem_cons.1 hg with rfl | hg
    · exact hf
    · exact hframes g hg
  unfold Reading.step at h
  split at h
  · cases h
    exact ⟨hframes, hmode⟩
  · exact sound_beginValue hframes ht h
  · cases h
    exact ⟨hframes, sound_arr.2 nofun⟩
  · exact sound_beginValue (hopen (f := .items []) nofun) ht h
  · rename_i hkey
    cases hkey
    cases h
    exact ⟨hframes, hmode⟩
  · cases h
    exact ⟨hframes, sound_obj.2 soundEntries_nil⟩
  · cases h
  · cases h
  · rename_i hcolon
    cases hcolon
    cases h
    exact ⟨hopen (f := .member _ _) hmode, trivial⟩
  · cases h
  · rename_i hafter
    cases hafter
    exact sound_endValue hframes hmode h

theorem Reading.Sound.run {r : Reading} {ts : List (Nat × Token)} {off : Nat} {v : Json}
    (hr : r.Sound) (hts : ∀ e ∈ ts, e.2.Sound) (h : r.run off ts = .ok v) : v.Sound := by
  induction ts generalizing r off with
  | nil =>
    obtain ⟨frames, mode⟩ := r
    rw [Reading.run, Reading.finish] at h
    cases mode <;> cases frames <;> cases h
    exact hr.mode
  | cons e ts ih =>
    rw [Reading.run] at h
    split at h
    · rename_i next hstep
      exact ih (hr.step (hts e (.head _)) hstep) (fun e' he' => hts e' (.tail _ he')) h
    · cases h

/-- **What is read from a text is sound.** -/
theorem sound_of_parse {s : Wide} {v : Json} (h : parse s = .ok v) : v.Sound := by
  have hstart : Reading.start.Sound := ⟨nofun, trivial⟩
  have hletters : parseLetters s.points = .ok v := mapError_eq_ok_iff.1 h
  unfold parseLetters at hletters
  split at hletters
  · cases hletters
  · exact hstart.run (sound_of_mem_tokens _) hletters

theorem sound_of_parseCommented {s : Wide} {v : Json} (h : parseCommented s = .ok v) : v.Sound :=
  sound_of_parse h

end Scaffold.Json
