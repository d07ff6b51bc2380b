import Scaffold.Proofs.Entry.Rewrite

/-!
# Where the declaration stands

The statements that take the place of a mount expression begin with a declaration, which is at its
place only where a statement begins.

* **One expression is enough.** An entry file is rewritten exactly if it has a single mount expression.
  What stands before the expression is never looked at.
* **The declaration stands where the expression stood.** So it begins a statement exactly if the
  expression did. The import lines above it do not change that, since each ends with a newline.
* **A part of a longer statement** is rewritten as well, and the file that is written is no program:
  the expression may be the value of another declaration, or begin in the middle of a name.
-/

namespace Scaffold

open Text

/-- A character that a statement may follow. -/
def endsStatement (c : Char) : Bool := c == '\n' || c == ';' || c == '\x7b' || c == '\x7d'

/-- A statement begins after the text: nothing but white space follows its last newline, semicolon or
brace. -/
def StartsStatement (before : List Char) : Prop :=
  ∀ c ∈ before.reverse.takeWhile (!endsStatement ·), isBlank c = true

instance (before : List Char) : Decidable (StartsStatement before) :=
  inferInstanceAs (Decidable (∀ c ∈ before.reverse.takeWhile (!endsStatement ·), isBlank c = true))

/-- What stands before the end of a statement does not matter. -/
theorem startsStatement_append_cons {c : Char} (hc : endsStatement c = true) (a b : List Char) :
    StartsStatement (a ++ c :: b) ↔ StartsStatement b := by
  have htake (s : List Char) : (s ++ c :: a.reverse).takeWhile (!endsStatement ·) =
      s.takeWhile (!endsStatement ·) := by
    induction s with
    | nil => rw [List.nil_append, List.takeWhile_cons_of_neg (by simp [hc]), List.takeWhile_nil]
    | cons d s ih => rw [List.cons_append, List.takeWhile_cons, List.takeWhile_cons, ih]
  have hreverse : (a ++ c :: b).reverse = b.reverse ++ c :: a.reverse := by simp
  rw [StartsStatement, StartsStatement, hreverse, htake]

/-- Whole lines above a text do not matter. -/
theorem startsStatement_linesText_append (lines : List (List Char)) (before : List Char) :
    StartsStatement (linesText lines ++ before) ↔ StartsStatement before := by
  induction lines with
  | nil => rfl
  | cons line lines ih =>
    rw [linesText_cons, List.append_assoc, List.cons_append, startsStatement_append_cons rfl, ih]

/-- The text has a mount expression with the given parts between the given texts, and no other one: none
begins before it, and none follows it with what ends its statement. -/
structure OnlyMount (factory : String) (content before : List Char) (p : MountText)
    (rest : List Char) : Prop where
  /-- the text around the expression -/
  split : content = before ++ (p.chars factory ++ rest)
  /-- no expression begins before it -/
  first : ∀ y, y ≠ [] → y <:+ before → ∀ (q : MountText) (u : List Char),
    y ++ (p.chars factory ++ rest) ≠ q.chars factory ++ u
  /-- no expression begins after it -/
  last : ∀ t, t <:+ skipStatementEnd rest → ∀ (q : MountText) (u : List Char),
    t ≠ q.chars factory ++ u

/-- The declaration of the application. -/
def declaration (names : EntryNames) (root : List Char) : String :=
  s!"const {names.name} = {names.factory}({String.ofList root});"

/-- The statements begin with the declaration. -/
theorem declaration_prefix (names : EntryNames) (p : MountText) (useCalls : List String) :
    (declaration names p.root).toList <+:
      ((p.mount names.factory).statements useCalls names.name).toList := by
  have hnewline : "\n".toList = ['\n'] := rfl
  rw [Mount.statements, String.toList_intercalate, hnewline, List.map_append, List.map_cons,
    List.map_cons, List.map_nil, intercalate_concat, linesText_cons, List.append_assoc]
  exact List.prefix_append _ _

namespace OnlyMount

variable {factory content : String} {before rest : List Char} {p : MountText}

/-- An entry file with a single mount expression is split around it. -/
theorem ofText_eq (h : OnlyMount factory content.toList before p rest) :
    SplitEntry.ofText factory content =
      .ok ⟨String.ofList before, p.mount factory, String.ofList (skipStatementEnd rest)⟩ := by
  have hne : p.chars factory ++ rest ≠ [] := by simp [MountText.chars]
  have hfind : find? (mount? factory) content.toList =
      some (before, p.mount factory, skipStatementEnd rest) := by
    rw [h.split]
    exact find?_append hne (p.mount?_append factory rest) fun y hy hsuffix =>
      MountText.mount?_eq_none_iff.2 (h.first y hy hsuffix)
  have hnone : find? (mount? factory) (skipStatementEnd rest) = none :=
    find?_eq_none_iff.2 fun t _ ht => MountText.mount?_eq_none_iff.2 (h.last t ht)
  refine SplitEntry.ofText_eq_ok_iff.2 ⟨?_, ?_⟩
  · simpa only [String.toList_ofList] using hfind
  · simpa only [String.toList_ofList] using hnone

/-- An entry file that is split has a single mount expression. -/
theorem exists_of_ofText {e : SplitEntry} (h : SplitEntry.ofText factory content = .ok e) :
    ∃ before p rest, OnlyMount factory content.toList before p rest := by
  obtain ⟨hfind, htail⟩ := SplitEntry.ofText_eq_ok_iff.1 h
  obtain ⟨t, -, hcontent, hread, hhead⟩ := find?_eq_some hfind
  obtain ⟨p, stop, -, rfl⟩ := MountText.of_mount? hread
  have hrest : skipStatementEnd (stop ++ e.tail.toList) = e.tail.toList := by
    rw [p.mount?_append] at hread
    exact (Prod.mk.inj (Option.some.inj hread)).2
  refine ⟨e.head.toList, p, stop ++ e.tail.toList, hcontent, fun y hy hsuffix => ?_,
    fun t ht q u hchars => ?_⟩
  · exact MountText.mount?_eq_none_iff.1 (hhead y hy hsuffix)
  · have hne : t ≠ [] := by simp [hchars, MountText.chars]
    rw [hrest] at ht
    exact MountText.mount?_eq_none_iff.1 (find?_eq_none_iff.1 htail t hne ht) q u hchars

end OnlyMount

/-- An entry file is refused for a number of mount expressions other than one. -/
theorem count_of_ofText_error {factory content : String} {fault : AnchorFault}
    (h : SplitEntry.ofText factory content = .error fault) :
    ∃ n, n ≠ 1 ∧ fault = ⟨mountForm factory, n⟩ := by
  rw [SplitEntry.ofText] at h
  cases hanchor : anchor (mountForm factory) (mount? factory) content.toList with
  | ok found =>
    rw [hanchor] at h
    cases h
  | error fault =>
    rw [hanchor] at h
    cases h
    exact anchor_error hanchor

/-- **Rewriting looks at nothing but the expression.** An entry file with a single mount expression is
rewritten, and the declaration begins a statement of the new file exactly if the expression began one of
the old file. An entry file with none or several is refused. -/
theorem declared_where_mounted (names : EntryNames) (content : String)
    (imports useCalls : List String) :
    (∀ before p rest, OnlyMount names.factory content.toList before p rest →
      ∃ text statements, rewriteEntry names content imports useCalls = .ok text ∧
        text.toList = (linesText (imports.map String.toList) ++ before) ++
          (statements ++ skipStatementEnd rest) ∧
        (declaration names p.root).toList <+: statements ∧
        (StartsStatement (linesText (imports.map String.toList) ++ before) ↔
          StartsStatement before)) ∧
      ((¬ ∃ before p rest, OnlyMount names.factory content.toList before p rest) →
        ∃ n, n ≠ 1 ∧
          rewriteEntry names content imports useCalls = .error ⟨mountForm names.factory, n⟩) := by
  constructor
  · intro before p rest h
    refine ⟨_, _, by rw [rewriteEntry, h.ofText_eq]; rfl, ?_, declaration_prefix names p useCalls,
      startsStatement_linesText_append _ _⟩
    rw [toList_withFeatures, String.toList_ofList, String.toList_ofList, List.append_assoc]
  · intro hnone
    cases hsplit : SplitEntry.ofText names.factory content with
    | ok e => exact absurd (OnlyMount.exists_of_ofText hsplit) hnone
    | error fault =>
      obtain ⟨n, hn, rfl⟩ := count_of_ofText_error hsplit
      exact ⟨n, hn, by rw [rewriteEntry, hsplit]; rfl⟩

/-- The expression of a new application. -/
def plainMount : MountText where
  beforeRoot := []
  root := "App".toList
  afterRoot := []
  beforeCall := []
  beforeSelector := []
  quote := '\x27'
  selector := "#app".toList
  afterSelector := []
  blank := by decide
  identifier := ⟨'A', "pp".toList, rfl, by decide, by decide⟩
  rootEnd := by
    rintro c ⟨⟩
    rfl
  quoted := by decide
  unquoted := by decide

/-- A text around the plain expression has no other one if the recogniser finds none. -/
theorem onlyMount_plainMount (before : List Char) (hbefore : ∀ y ∈ before.tails, y ≠ [] →
    mount? defaultFactory (y ++ plainMount.chars defaultFactory) = none) :
    OnlyMount defaultFactory (before ++ plainMount.chars defaultFactory) before plainMount [] := by
  refine ⟨by rw [List.append_nil], fun y hy hsuffix => ?_, fun t ht q u hchars => ?_⟩
  · rw [List.append_nil]
    exact MountText.mount?_eq_none_iff.1 (hbefore y ((List.mem_tails _ _).2 hsuffix) hy)
  · rw [List.suffix_nil.1 ht] at hchars
    simp [MountText.chars] at hchars

/-- The declaration of a file whose expression is a statement begins one. -/
theorem declared_where_mounted_statement :
    ∃ before rest, OnlyMount defaultFactory "setup();createApp(App).mount('#app')".toList before
        plainMount rest ∧ StartsStatement before ∧
      ∃ text statements, rewriteEntry {} "setup();createApp(App).mount('#app')" [] [] = .ok text ∧
        text.toList = (linesText [] ++ before) ++ (statements ++ skipStatementEnd rest) ∧
        (declaration {} plainMount.root).toList <+: statements ∧
        (StartsStatement (linesText [] ++ before) ↔ StartsStatement before) := by
  have honly : OnlyMount defaultFactory "setup();createApp(App).mount('#app')".toList
      "setup();".toList plainMount [] := onlyMount_plainMount "setup();".toList (by decide)
  exact ⟨_, _, honly, by decide, (declared_where_mounted {} _ [] []).1 _ _ _ honly⟩

/-- **A file is rewritten although its expression is a part of a longer statement**: here it is the
value of another declaration. -/
theorem not_declared_at_statement :
    ∃ content text before rest, rewriteEntry {} content [] [] = .ok text ∧
      OnlyMount defaultFactory content.toList before plainMount rest ∧ ¬ StartsStatement before ∧
      content = "const x = createApp(App).mount('#app')" ∧
      text = "const x = const app = createApp(App);\napp.mount('#app');" := by
  have honly : OnlyMount defaultFactory "const x = createApp(App).mount('#app')".toList
      "const x = ".toList plainMount [] := onlyMount_plainMount "const x = ".toList (by decide)
  exact ⟨_, _, _, _, by decide +kernel, honly, by decide, rfl, rfl⟩

end Scaffold
