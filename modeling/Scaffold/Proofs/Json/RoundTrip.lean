import Scaffold.Proofs.Json.Written

/-!
# Reading back what was written

The machine that reads JSON takes what was written for a value to the value itself, up to rereading
numbers.

* **One token a piece.** The writer's pieces are cut into one token each, whatever follows, as long
  as no character follows that could go on a number.
* **From value to value.** Where a value may begin, its text leads to the state after it, with the
  same lists and objects open. The proof follows the recursion of the writer.
-/

namespace Scaffold.Json

open Letter

variable {γ : Type} [Letter γ] {c : γ} {piece rest : List γ} {t : Token} {off : Nat}

/-! ## Tokens -/

/-- The letters are cut off as one token. -/
def Cuts (piece : List γ) (t : Token) (rest : List γ) : Prop :=
  tokens (piece ++ rest) = (piece.length, t) :: tokens rest

theorem cuts_of_readToken (hread : readToken c (piece ++ rest) = (piece.length, t))
    (hcontinues : t.continues) : Cuts (c :: piece) t rest := by
  unfold Cuts
  rw [List.cons_append, tokens, hread]
  simp [hcontinues]

/-- A character that begins a word or a number. -/
def BeginsAtom (c : Char) : Prop := c.isDigit ∨ c ∈ ['-', 'n', 't', 'f', 'N', 'I']

theorem BeginsAtom.ne {c : Char} (hc : BeginsAtom c) : isJsonBlank c = false ∧ c ≠ '\x7b' ∧
    c ≠ '\x7d' ∧ c ≠ '[' ∧ c ≠ ']' ∧ c ≠ ':' ∧ c ≠ ',' ∧ c ≠ '"' := by
  rcases hc with hc | hc
  · refine ⟨?_, ?_, ?_, ?_, ?_, ?_, ?_, ?_⟩
    · simp only [isJsonBlank, Bool.or_eq_false_iff, beq_eq_false_iff_ne]
      refine ⟨⟨⟨?_, ?_⟩, ?_⟩, ?_⟩ <;> (rintro rfl; revert hc; decide)
    all_goals (rintro rfl; revert hc; decide)
  · revert c
    decide

theorem readToken_of_beginsAtom (hc : BeginsAtom (char c)) (rest : List γ) :
    readToken c rest =
      ((readAtom (chars (c :: rest))).1 - 1, (readAtom (chars (c :: rest))).2) := by
  obtain ⟨hblank, h1, h2, h3, h4, h5, h6, h7⟩ := hc.ne
  unfold readToken
  rw [hblank]
  simp only [Bool.false_eq_true, if_false]

theorem cuts_atom {v : Json} (hc : BeginsAtom (char c))
    (h : readAtom (chars (c :: piece ++ rest)) = ((c :: piece).length, .atom v)) :
    Cuts (c :: piece) (.atom v) rest := by
  refine cuts_of_readToken ?_ rfl
  rw [readToken_of_beginsAtom hc, ← List.cons_append, h]
  rfl

/-- Characters are cut off as one token before any letters. -/
theorem cuts_atom_map {v : Json} {c : Char} {piece : List Char} {rest : List CodePoint}
    (hc : BeginsAtom c)
    (h : readAtom (c :: piece ++ chars rest) = ((c :: piece).length, .atom v)) :
    Cuts ((c :: piece).map .char) (.atom v) rest :=
  cuts_atom hc (by simpa using h)

/-- **A written string is cut off as one token.** -/
theorem cuts_writeText (s : Wide) (rest : List CodePoint) : Cuts (writeText s) (.text s) rest := by
  have hread := readText_flatMap s.points 0 [] rest
  unfold writeText
  refine cuts_of_readToken ?_ rfl
  simpa [readToken, isJsonBlank] using hread

theorem cuts_writeInt (i : Int) {rest : List CodePoint} (hrest : Stops (chars rest)) :
    Cuts ((writeInt i).map .char) (.atom (.int i)) rest := by
  have hread := readAtom_writeInt i hrest
  obtain ⟨c, piece, hcons, hc⟩ : ∃ c piece, writeInt i = c :: piece ∧ BeginsAtom c := by
    obtain ⟨c, ds, hdigits, hc⟩ := exists_digit_of_isWhole (isWhole_toDigits i.natAbs)
    unfold writeInt
    split
    · exact ⟨'-', _, rfl, .inr (.head _)⟩
    · exact ⟨c, ds, hdigits, .inl hc⟩
  rw [hcons] at hread ⊢
  exact cuts_atom_map hc hread

theorem cuts_writeNumber {x : Binary64} (hx : x.Fits) {rest : List CodePoint}
    (hrest : Stops (chars rest)) :
    Cuts ((Decimal.Layout.json.write x).map .char) (.atom (.float x.reread)) rest := by
  have hread := Binary64.readAtom_write hx hrest
  obtain ⟨c, piece, hcons, hc⟩ :
      ∃ c piece, Decimal.Layout.json.write x = c :: piece ∧ BeginsAtom c := by
    cases hx with
    | notANumber => exact ⟨'N', _, rfl, .inr (by decide)⟩
    | infinity negative =>
      cases negative
      · exact ⟨'I', _, rfl, .inr (by decide)⟩
      · exact ⟨'-', _, rfl, .inr (by decide)⟩
    | finite negative m e hm =>
      obtain ⟨text, ⟨whole, fraction, exponent, rfl, hwhole, -⟩, hwrite⟩ :=
        Binary64.write_finite hm negative e
      obtain ⟨c, ds, rfl, hc⟩ := exists_digit_of_isWhole hwhole
      rw [hwrite]
      cases negative
      · exact ⟨c, _, rfl, .inl hc⟩
      · exact ⟨'-', _, rfl, .inr (by decide)⟩
  rw [hcons] at hread ⊢
  exact cuts_atom_map hc hread

/-! ## The machine -/

variable {r q q' : Reading} {s text : List γ} {frames : List Frame}

/-- The text leads from one state to another, with the rest of the text still to be read. -/
def Leads (r : Reading) (text rest : List γ) (q : Reading) : Prop :=
  ∀ off, r.run off (tokens (text ++ rest)) = q.run (off + text.length) (tokens rest)

theorem Leads.trans (h : Leads r s (text ++ rest) q) (h' : Leads q text rest q') :
    Leads r (s ++ text) rest q' := by
  intro off
  rw [List.append_assoc, h off, h' (off + s.length), List.length_append, Nat.add_assoc]

theorem leads_of_cuts (h : Cuts piece t rest) (hstep : r.step t = .ok q) :
    Leads r piece rest q := by
  intro off
  rw [h, Reading.run, hstep]

/-- Blanks at the start of a text change nothing. -/
theorem run_blanks (r : Reading) (off : Nat) (s : List γ) :
    r.run off (tokens s) =
      r.run (off + (s.takeWhile (isJsonBlank ∘ char)).length)
        (tokens (s.dropWhile (isJsonBlank ∘ char))) := by
  cases s with
  | nil => rfl
  | cons c s =>
    cases hc : isJsonBlank (char c) with
    | false => simp [hc]
    | true =>
      have hread : readToken c s = ((s.takeWhile (isJsonBlank ∘ char)).length, .blanks) := by
        simp [readToken, hc, chars, List.takeWhile_map]
      have hdrop : s.drop (s.takeWhile (isJsonBlank ∘ char)).length =
          s.dropWhile (isJsonBlank ∘ char) := by
        have hsplit := List.takeWhile_append_dropWhile (p := isJsonBlank ∘ char) (l := s)
        exact (congrArg (List.drop _) hsplit).symm.trans List.drop_left
      rw [tokens, hread]
      simp [Reading.run, Reading.step, hc, hdrop, Token.continues]

theorem leads_blanks {blanks : List γ} (hblanks : ∀ c ∈ blanks, isJsonBlank (char c)) (r : Reading)
    (rest : List γ) : Leads r blanks rest r := by
  intro off
  have hall : ∀ c ∈ blanks, (isJsonBlank ∘ char) c = true := hblanks
  rw [run_blanks, run_blanks r (off + blanks.length), List.takeWhile_append_of_pos hall,
    List.dropWhile_append_of_pos hall, List.length_append, Nat.add_assoc]

theorem leads_newLine (r : Reading) (depth : Nat) (rest : List CodePoint) :
    Leads r ((newLine depth).map .char) rest r := by
  refine leads_blanks (fun p hp => ?_) r rest
  obtain ⟨c, hc, rfl⟩ := List.mem_map.1 hp
  rcases List.mem_cons.1 hc with rfl | hc
  · rfl
  · rw [List.eq_of_mem_replicate hc]
    rfl

/-- A state in which a value may begin, with the lists and objects that are open around it. -/
inductive Begins : Reading → List Frame → Prop
  | value (frames : List Frame) : Begins ⟨frames, .value⟩ frames
  | firstItem (frames : List Frame) : Begins ⟨frames, .itemOrEnd⟩ (.items [] :: frames)

/-- A token that begins a value. -/
def Token.beginsValue : Token → Bool
  | .atom _ | .text _ | .openBracket | .openBrace => true
  | _ => false

theorem Begins.step (h : Begins r frames) (ht : t.beginsValue) : r.step t = beginValue frames t := by
  cases h <;> cases t <;> first | rfl | cases ht

theorem stops_writeItems (depth depth' : Nat) (items : List Json) (rest : List CodePoint) :
    Stops (chars (writeItems .file depth items ++ ((newLine depth').map .char ++ rest))) := by
  cases items with
  | nil => exact stops_cons (by decide) (by decide)
  | cons v items => exact stops_cons (by decide) (by decide)

theorem stops_writeMembers (depth depth' : Nat) (members : List (Wide × Json))
    (rest : List CodePoint) :
    Stops (chars (writeMembers .file depth members ++ ((newLine depth').map .char ++ rest))) := by
  cases members with
  | nil => exact stops_cons (by decide) (by decide)
  | cons e members => exact stops_cons (by decide) (by decide)

/-- A punctuation mark leads one step further. -/
theorem leads_mark (hread : readToken c rest = (0, t)) (hcontinues : t.continues)
    (hstep : r.step t = .ok q) : Leads r [c] rest q :=
  leads_of_cuts (cuts_of_readToken (show readToken c ([] ++ rest) = (0, t) from hread) hcontinues) hstep

theorem insert_of_not_mem {before : Entries Json Wide} {k : Wide} (h : k ∉ before.keys) (v : Json) :
    before.insert k v = before ++ [(k, v)] := by
  induction before with
  | nil => rfl
  | cons e before ih =>
    simp only [Entries.keys, List.map_cons, List.mem_cons, not_or] at h
    rw [Entries.insert, if_neg (Ne.symm h.1), ih h.2, List.cons_append]

theorem not_mem_of_nodup {ks ls : List Wide} {k : Wide} (h : (ks ++ k :: ls).Nodup) : k ∉ ks :=
  fun hmem => (List.nodup_append.1 h).2.2 k hmem k (.head _) rfl

theorem leads_word {word : List γ} {v : Json} (hr : Begins r frames)
    (h : Cuts word (.atom v) rest) : Leads r word rest ⟨frames, .after v⟩ :=
  leads_of_cuts h (hr.step rfl)

mutual
/-- **The text of a value leads to the state after the value.** -/
theorem leads_write (depth : Nat) (frames : List Frame) (rest : List CodePoint)
    (hrest : Stops (chars rest)) :
    (v : Json) → v.Sound → (r : Reading) → Begins r frames →
      Leads r (write .file depth v) rest ⟨frames, .after v.reread⟩
  | .null, _, r, hr => leads_word hr (cuts_atom_map (c := 'n') (.inr (by decide)) rfl)
  | .bool true, _, r, hr => leads_word hr (cuts_atom_map (c := 't') (.inr (by decide)) rfl)
  | .bool false, _, r, hr => leads_word hr (cuts_atom_map (c := 'f') (.inr (by decide)) rfl)
  | .int i, _, r, hr => leads_of_cuts (cuts_writeInt i hrest) (hr.step rfl)
  | .float x, h, r, hr => leads_of_cuts (cuts_writeNumber h hrest) (hr.step rfl)
  | .str s, _, r, hr => leads_of_cuts (cuts_writeText s rest) (hr.step rfl)
  | .arr [], _, r, hr =>
    (leads_mark (c := CodePoint.char '[') rfl rfl (hr.step rfl)).trans
      (leads_mark (c := CodePoint.char ']') rfl rfl rfl)
  | .arr (v :: items), h, r, hr => by
    have htext : write .file depth (.arr (v :: items)) =
        [CodePoint.char '['] ++ ((newLine (depth + 1)).map .char ++ (write .file (depth + 1) v ++
          (writeItems .file (depth + 1) items ++
            ((newLine depth).map .char ++ [CodePoint.char ']'])))) := by
      simp [write, Style.file]
    have hstops := stops_writeItems (depth + 1) depth items ([.char ']'] ++ rest)
    rw [htext]
    refine (leads_mark rfl rfl (hr.step rfl)).trans ((leads_newLine _ _ _).trans ?_)
    refine (leads_write (depth + 1) (.items [] :: frames) _ ?_ v h.1 _ (.firstItem _)).trans ?_
    · simpa using hstops
    · exact leads_writeItems (depth + 1) depth frames rest items h.2 [] v.reread
  | .obj [], _, r, hr =>
    (leads_mark (c := CodePoint.char '\x7b') rfl rfl (hr.step rfl)).trans
      (leads_mark (c := CodePoint.char '\x7d') rfl rfl rfl)
  | .obj ((k, v) :: members), h, r, hr => by
    have htext : write .file depth (.obj ((k, v) :: members)) =
        [CodePoint.char '\x7b'] ++ ((newLine (depth + 1)).map .char ++ (writeText k ++
          ([CodePoint.char ':'] ++ ([CodePoint.char ' '] ++ (write .file (depth + 1) v ++
            (writeMembers .file (depth + 1) members ++
              ((newLine depth).map .char ++ [CodePoint.char '\x7d']))))))) := by
      simp [write, Style.file]
    have hstops := stops_writeMembers (depth + 1) depth members ([.char '\x7d'] ++ rest)
    rw [htext]
    refine (leads_mark rfl rfl (hr.step rfl)).trans ((leads_newLine _ _ _).trans ?_)
    refine (leads_of_cuts (cuts_writeText k _) (q := ⟨frames, .colon [] k⟩) rfl).trans ?_
    refine (leads_mark (q := ⟨.member [] k :: frames, .value⟩) rfl rfl rfl).trans ?_
    refine (leads_blanks (by decide) _ _).trans ?_
    refine (leads_write (depth + 1) (.member [] k :: frames) _ ?_ v h.2.1 _ (.value _)).trans ?_
    · simpa using hstops
    · exact leads_writeMembers (depth + 1) depth frames rest members h.2.2 [] k v.reread h.1

/-- The text of the further items leads to the end of the list. -/
theorem leads_writeItems (depth depth' : Nat) (frames : List Frame) (rest : List CodePoint) :
    (items : List Json) → SoundItems items → (before : List Json) → (v : Json) →
      Leads ⟨.items before :: frames, .after v⟩
        (writeItems .file depth items ++ ((newLine depth').map .char ++ [.char ']'])) rest
        ⟨frames, .after (.arr (before.reverse ++ v :: rereadItems items))⟩
  | [], _, before, v => by
    have hstep : Reading.step ⟨.items before :: frames, .after v⟩ .closeBracket =
        .ok ⟨frames, .after (.arr (before.reverse ++ [v]))⟩ := by
      simp [Reading.step, endValue]
    exact (leads_newLine _ _ _).trans (leads_mark rfl rfl hstep)
  | w :: items, h, before, v => by
    have htext :
        writeItems .file depth (w :: items) ++ ((newLine depth').map .char ++ [CodePoint.char ']']) =
          [CodePoint.char ','] ++ ((newLine depth).map .char ++ (write .file depth w ++
            (writeItems .file depth items ++
              ((newLine depth').map .char ++ [CodePoint.char ']'])))) := by
      simp [writeItems, Style.file]
    have hstops := stops_writeItems depth depth' items ([.char ']'] ++ rest)
    have hmore := leads_writeItems depth depth' frames rest items h.2 (v :: before) w.reread
    rw [List.reverse_cons, List.append_assoc] at hmore
    rw [htext]
    refine (leads_mark (q := ⟨.items (v :: before) :: frames, .value⟩) rfl rfl rfl).trans ?_
    refine (leads_newLine _ _ _).trans ?_
    refine (leads_write depth (.items (v :: before) :: frames) _ ?_ w h.1 _ (.value _)).trans ?_
    · simpa using hstops
    · exact hmore

/-- The text of the further members leads to the end of the object. -/
theorem leads_writeMembers (depth depth' : Nat) (frames : List Frame) (rest : List CodePoint) :
    (members : List (Wide × Json)) → SoundMembers members → (before : Entries Json Wide) →
      (k : Wide) → (v : Json) → (before.keys ++ k :: Entries.keys members).Nodup →
      Leads ⟨.member before k :: frames, .after v⟩
        (writeMembers .file depth members ++ ((newLine depth').map .char ++ [.char '\x7d'])) rest
        ⟨frames, .after (.obj (before ++ (k, v) :: rereadMembers members))⟩
  | [], _, before, k, v, hkeys => by
    have hk := not_mem_of_nodup hkeys
    have hstep : Reading.step ⟨.member before k :: frames, .after v⟩ .closeBrace =
        .ok ⟨frames, .after (.obj (before ++ [(k, v)]))⟩ := by
      simp [Reading.step, endValue, insert_of_not_mem hk]
    exact (leads_newLine _ _ _).trans (leads_mark rfl rfl hstep)
  | (k', w) :: members, h, before, k, v, hkeys => by
    have hk := not_mem_of_nodup hkeys
    have htext :
        writeMembers .file depth ((k', w) :: members) ++
            ((newLine depth').map .char ++ [CodePoint.char '\x7d']) =
          [CodePoint.char ','] ++ ((newLine depth).map .char ++ (writeText k' ++
            ([CodePoint.char ':'] ++ ([CodePoint.char ' '] ++ (write .file depth w ++
              (writeMembers .file depth members ++
                ((newLine depth').map .char ++ [CodePoint.char '\x7d']))))))) := by
      simp [writeMembers, Style.file]
    have hstops := stops_writeMembers depth depth' members ([.char '\x7d'] ++ rest)
    have hkeys' : ((before ++ [(k, v)]).keys ++ k' :: Entries.keys members).Nodup := by
      simpa [Entries.keys] using hkeys
    have hmore := leads_writeMembers depth depth' frames rest members h.2 (before ++ [(k, v)]) k'
      w.reread hkeys'
    rw [List.append_assoc] at hmore
    have hstep : Reading.step ⟨.member before k :: frames, .after v⟩ .comma =
        .ok ⟨frames, .key (before ++ [(k, v)]) false⟩ := by
      simp [Reading.step, endValue, insert_of_not_mem hk]
    rw [htext]
    refine (leads_mark rfl rfl hstep).trans ((leads_newLine _ _ _).trans ?_)
    refine (leads_of_cuts (cuts_writeText k' _)
      (q := ⟨frames, .colon (before ++ [(k, v)]) k'⟩) rfl).trans ?_
    refine (leads_mark (q := ⟨.member (before ++ [(k, v)]) k' :: frames, .value⟩)
      rfl rfl rfl).trans ?_
    refine (leads_blanks (by decide) _ _).trans ?_
    refine (leads_write depth (.member (before ++ [(k, v)]) k' :: frames) _ ?_ w h.1 _
      (.value _)).trans ?_
    · simpa using hstops
    · exact hmore
end

/-! ## Files -/

/-- **The content of a written file is read back**, with and without taking out comments. -/
theorem parse_toFile {v : Json} (h : v.Sound) : parse v.toFile = .ok v.reread := by
  have hhead := (tidy_toFile h).head?_ne
  have hstops : Stops (chars ((newLine 0).map CodePoint.char ++ [])) :=
    stops_cons (by decide) (by decide)
  have hlead : Leads .start (write .file 0 v ++ (newLine 0).map .char) [] ⟨[], .after v.reread⟩ :=
    (leads_write 0 [] _ hstops v h _ (.value _)).trans (leads_newLine _ _ _)
  have hrun := hlead 0
  rw [List.append_nil, tokens, Reading.run] at hrun
  have hletters : parseLetters v.toFile.points = .ok v.reread := by
    rw [parseLetters, if_neg (by simpa using hhead), toFile, Wide.points_ofPoints]
    exact hrun
  rw [parse, hletters]
  rfl

theorem parseCommented_toFile {v : Json} (h : v.Sound) :
    parseCommented v.toFile = .ok v.reread := by
  have hstrip := (tidy_toFile h).stripComments_append []
  rw [List.append_nil, stripComments, List.append_nil] at hstrip
  rw [parseCommented, hstrip, Wide.ofPoints_points, parse_toFile h]

end Scaffold.Json
