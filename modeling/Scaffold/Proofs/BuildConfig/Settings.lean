import Scaffold.Proofs.BuildConfig.Insertion

/-!
# Settings that are put in once

A block of settings is put in unless its marker occurs in the text. So putting it in again changes
nothing exactly if the marker occurs in the text that it was put into.

* **The block is indented** line by line. A marker that stands on one line of the block occurs in what
  is put in.
* **A marker that goes on over a line end** may be lost: the next line begins two blanks further to the
  right, and every line end has become a newline.
* **Whether a marker tells its block** in every text can be seen from the two alone.
-/

namespace Scaffold.BuildConfig

open Text

variable {content text block marker : String} {w s : List Char}

/-! ## What is put in -/

theorem indentBlock_ne_nil (hs : s ≠ []) : indentBlock s ≠ [] := by
  obtain ⟨line, lines, hlines⟩ := List.exists_cons_of_ne_nil (breakLines_ne_nil hs)
  simp [indentBlock, hlines]

/-- A word on one line of the block is there after the lines were indented. -/
theorem infix_indentBlock (hne : w ≠ []) (hw : ∀ c ∈ w, isLineBreak c = false) (h : w <:+: s) :
    w <:+: indentBlock s := by
  obtain ⟨line, hline, hin⟩ := exists_line_of_infix hne hw h
  have hempty : line.isEmpty = false := by
    refine List.isEmpty_eq_false_iff.2 fun hnil => hne ?_
    rwa [hnil, List.infix_nil] at hin
  rw [indentBlock, List.flatMap_def]
  refine List.IsInfix.trans ?_ (List.infix_of_mem_flatten (List.mem_map_of_mem hline))
  rw [hempty]
  exact hin.trans ⟨[' ', ' '], ['\n'], rfl⟩

theorem insertSettings_of_new (hnew : ¬ marker.toList <:+: content.toList) :
    insertSettings content block marker = (do
      let (before, start, after) ← anchor configPattern configObject? content.toList
      return String.ofList (before ++ start ++ indentBlock block.toList ++ after)) := by
  unfold insertSettings
  rw [if_neg fun hthere => hnew (occursIn_iff.1 hthere)]

/-- **A text is returned as it is exactly if the marker occurs in it.** In any other text a block that
is put in can be seen. -/
theorem insertSettings_eq_self_iff (hblock : block.toList ≠ []) :
    insertSettings content block marker = .ok content ↔ marker.toList <:+: content.toList := by
  refine ⟨fun h => ?_, insertSettings_of_infix⟩
  rcases insertSettings_ok h with ⟨-, hthere⟩ | ⟨-, before, spacing, after, hcontent, htext⟩
  · exact hthere
  · have hlength := congrArg List.length (hcontent.symm.trans htext)
    simp only [List.length_append, List.length_cons] at hlength
    exact absurd (List.length_eq_zero_iff.1 (by omega)) (indentBlock_ne_nil hblock)

/-! ## Markers that tell -/

/-- The marker tells the block in every text: it occurs in what is put in, with the newline before it,
or in the opening of the object, without which nothing is put in. -/
def Tells (marker block : List Char) : Prop :=
  marker <:+: '\n' :: indentBlock block ∨ marker <:+: "defineConfig(\x7b".toList

instance (marker block : List Char) : Decidable (Tells marker block) :=
  inferInstanceAs (Decidable (_ ∨ _))

/-- A marker that tells its block occurs in every text that the block was put into. -/
theorem Tells.infix_of_insertSettings (htells : Tells marker.toList block.toList)
    (h : insertSettings content block marker = .ok text) : marker.toList <:+: text.toList := by
  rcases insertSettings_ok h with ⟨rfl, hthere⟩ | ⟨-, before, spacing, after, -, htext⟩
  · exact hthere
  · rw [htext]
    rcases htells with hput | hopening
    · refine hput.trans ⟨before ++ ("defineConfig(\x7b".toList ++ spacing), after, ?_⟩
      simp
    · refine hopening.trans ⟨before, spacing ++ '\n' :: (indentBlock block.toList ++ after), ?_⟩
      simp

/-- A marker that occurs in what is put into two openings, which differ before their newline, tells. -/
theorem tells_of_openings {block : List Char}
    (hplain : w <:+: "defineConfig(\x7b".toList ++ '\n' :: indentBlock block)
    (hspaced : w <:+: "defineConfig(\x7b ".toList ++ '\n' :: indentBlock block) : Tells w block := by
  rcases infix_append_cons_cases hplain with h | h | ⟨x, y, hx, hsuffix, -, rfl⟩
  · exact .inr h
  · exact .inl h
  rcases infix_append_cons_cases hspaced with h | h | ⟨x', y', hx', hsuffix', -, heq⟩
  · have hnewline : '\n' ∈ x ++ '\n' :: y := by simp
    exact absurd (h.subset hnewline) (by decide)
  · exact .inl h
  -- The marker has one first newline, so both openings would end alike.
  have hnot {a b : List Char} (h : a <:+ b) (hb : '\n' ∉ b) : '\n' ∉ a := fun hmem => hb (h.subset hmem)
  obtain ⟨rfl, -⟩ := append_cons_inj_of_not_mem heq (hnot hsuffix (by decide)) (hnot hsuffix' (by decide))
  have hlast : ' ' = '\x7b' := (hsuffix'.getLast hx).symm.trans (hsuffix.getLast hx)
  exact absurd hlast (by decide)

/-- **Putting settings in again changes nothing for every text exactly if the marker tells the
block**, as every marker on one line of the block does. For a single text it depends on whether the
marker occurs in what is returned. -/
theorem settings_repeatable_iff (hmarker : marker ≠ "")
    (hfragment : marker.toList <:+: block.toList) :
    (∀ content text, insertSettings content block marker = .ok text →
        (insertSettings text block marker = .ok text ↔ marker.toList <:+: text.toList)) ∧
      ((∀ content text, insertSettings content block marker = .ok text →
        insertSettings text block marker = .ok text) ↔ Tells marker.toList block.toList) ∧
      ((∀ c ∈ marker.toList, isLineBreak c = false) → Tells marker.toList block.toList) := by
  have hne : marker.toList ≠ [] := by simpa using hmarker
  have hblock : block.toList ≠ [] := by
    rintro hnil
    rw [hnil, List.infix_nil] at hfragment
    exact hne hfragment
  refine ⟨fun _ _ _ => insertSettings_eq_self_iff hblock, ⟨fun h => ?_, fun h content text hput => ?_⟩,
    fun hw => ?_⟩
  · have hfound (opening : String)
        (hanchor : anchor configPattern configObject? (opening.toList ++ ['\n']) =
          .ok ([], opening.toList ++ ['\n'], [])) :
        marker.toList <:+: opening.toList ++ '\n' :: indentBlock block.toList := by
      by_cases hthere : marker.toList <:+: opening.toList ++ ['\n']
      · exact hthere.trans ⟨[], indentBlock block.toList, by simp⟩
      · have hput : insertSettings (String.ofList (opening.toList ++ ['\n'])) block marker =
            .ok (String.ofList (opening.toList ++ '\n' :: indentBlock block.toList)) := by
          rw [insertSettings_of_new (by rwa [String.toList_ofList]), String.toList_ofList, hanchor]
          simp [bind, Except.bind, pure, Except.pure]
        simpa using (insertSettings_eq_self_iff hblock).1 (h _ _ hput)
    exact tells_of_openings (hfound "defineConfig(\x7b" (by decide +kernel))
      (hfound "defineConfig(\x7b " (by decide +kernel))
  · exact insertSettings_of_infix (h.infix_of_insertSettings hput)
  · exact .inl ((infix_indentBlock hne hw hfragment).trans (List.suffix_cons _ _).isInfix)

/-- A marker on the second line of its block. -/
theorem settings_repeatable_iff_inner_line :
    ∃ block marker, block = "build: \x7b\n  cssMinify: 'lightningcss',\n\x7d," ∧
      marker = "cssMinify: 'light" ∧ marker ≠ "" ∧ marker.toList <:+: block.toList ∧
      Tells marker.toList block.toList ∧
      insertSettings "defineConfig(\x7b \n\x7d)\n" block marker = .ok
        "defineConfig(\x7b \n  build: \x7b\n    cssMinify: 'lightningcss',\n  \x7d,\n\x7d)\n" ∧
      ∀ content text, insertSettings content block marker = .ok text →
        insertSettings text block marker = .ok text := by
  have hmarker : "cssMinify: 'light" ≠ "" := by decide
  have hfragment : "cssMinify: 'light".toList <:+:
      "build: \x7b\n  cssMinify: 'lightningcss',\n\x7d,".toList := by decide
  obtain ⟨-, hrepeatable, hline⟩ := settings_repeatable_iff hmarker hfragment
  have htells := hline (by decide)
  exact ⟨_, _, rfl, rfl, hmarker, hfragment, htells, by decide +kernel, hrepeatable.2 htells⟩

/-- **A marker that goes on over a line end is not found again**: the line behind it was indented, and
the block is put in twice. -/
theorem not_settings_repeatable_over_line_end :
    ∃ content block marker text, content = "defineConfig(\x7b\n\x7d)\n" ∧
      block = "build: \x7b\n  minify: true,\n\x7d," ∧ marker = "build: \x7b\n  minify" ∧
      marker ≠ "" ∧ marker.toList <:+: block.toList ∧
      text = "defineConfig(\x7b\n  build: \x7b\n    minify: true,\n  \x7d,\n\x7d)\n" ∧
      insertSettings content block marker = .ok text ∧
      insertSettings text block marker = .ok
        "defineConfig(\x7b\n  build: \x7b\n    minify: true,\n  \x7d,\n  build: \x7b\n    minify: true,\n  \x7d,\n\x7d)\n" ∧
      insertSettings text block marker ≠ .ok text := by
  refine ⟨_, _, _, _, rfl, rfl, rfl, by decide, by decide, rfl, ?_, ?_, ?_⟩ <;> decide +kernel

end Scaffold.BuildConfig
