import Scaffold.Proofs.Json.Commented
import Scaffold.Proofs.Text.Search

/-!
# What a scan for comments finds

Comments are taken out in one pass from left to right. At each place the pass finds a string, a comment
or a single character, in this order of preference, and goes on behind it. `Scanned` states this pass
as a relation between a text and its pieces.

* **A string** is what stands between two quotation marks, where a backslash takes the next character
  with it. A quotation mark without a partner is a single character.
* **No comment arises** where others are taken out: a character that stays and begins no comment
  begins none either when what follows it has lost its comments.
* **A quotation mark may find a partner** once the comments are gone. From the first mark without a
  partner on, no mark has one, so all that follows is without strings and has lost every comment.
-/

namespace Scaffold.Json

variable {s rest body comment after : List Char} {c d : Char}

/-! ## Strings and comments -/

/-- What may stand between the marks of a string. -/
inductive IsStringBody : List Char → Prop
  | nil : IsStringBody []
  | escape (c : Char) {s : List Char} (h : IsStringBody s) : IsStringBody ('\\' :: c :: s)
  | plain {c : Char} {s : List Char} (hquote : c ≠ '"') (hslash : c ≠ '\\') (h : IsStringBody s) :
      IsStringBody (c :: s)

/-- A string that was opened before the text is closed in it. -/
def ClosesString (s : List Char) : Prop := ∃ body rest, IsStringBody body ∧ s = body ++ '"' :: rest

/-- A comment, and what may follow it. -/
inductive IsComment : List Char → List Char → Prop
  /-- a line comment goes on to the end of its line -/
  | line {content rest : List Char} (hcontent : '\n' ∉ content)
      (hend : rest = [] ∨ rest.head? = some '\n') : IsComment ('/' :: '/' :: content) rest
  /-- a block comment ends at the first closing mark -/
  | block {content : List Char} (rest : List Char) (hcontent : ¬ ['*', '/'] <:+: content) :
      IsComment ('/' :: '*' :: (content ++ ['*', '/'])) rest

/-- A comment stands at the start of the text. -/
def OpensComment (s : List Char) : Prop :=
  ∃ comment rest, IsComment comment rest ∧ s = comment ++ rest

theorem stringRest_of_isStringBody (h : IsStringBody body) (rest : List Char) :
    stringRest (body ++ '"' :: rest) = some (body ++ ['"'], rest) := by
  induction h with
  | nil => exact stringRest_quote rfl
  | escape c _ ih => simp [stringRest_escape (c := '\\') rfl, ih]
  | @plain c _ hquote hslash _ ih => simp [stringRest_plain (c := c) hquote hslash, ih]

theorem exists_isStringBody {closed : List Char} (h : stringRest s = some (closed, rest)) :
    ∃ body, IsStringBody body ∧ closed = body ++ ['"'] ∧ s = body ++ '"' :: rest := by
  fun_induction stringRest s generalizing closed rest with
  | case1 => cases h
  | case2 c after hquote =>
    cases h
    obtain rfl : c = '"' := by simpa using hquote
    exact ⟨[], .nil, rfl, rfl⟩
  | case3 => cases h
  | case4 c hquote hslash e after ih =>
    obtain ⟨r, hr, heq⟩ := Option.map_eq_some_iff.1 h
    cases heq
    obtain ⟨body, hbody, hclosed, rfl⟩ := ih hr
    obtain rfl : c = '\\' := by simpa using hslash
    exact ⟨'\\' :: e :: body, .escape e hbody, by rw [hclosed]; rfl, rfl⟩
  | case5 c after hquote hslash ih =>
    obtain ⟨r, hr, heq⟩ := Option.map_eq_some_iff.1 h
    cases heq
    obtain ⟨body, hbody, hclosed, rfl⟩ := ih hr
    have hbody' : IsStringBody (c :: body) :=
      .plain (by simpa using hquote) (by simpa using hslash) hbody
    exact ⟨c :: body, hbody', by rw [hclosed]; rfl, rfl⟩

theorem stringRest_eq_none_iff : stringRest s = none ↔ ¬ ClosesString s := by
  constructor
  · rintro h ⟨body, rest, hbody, rfl⟩
    rw [stringRest_of_isStringBody hbody] at h
    cases h
  · intro hopen
    cases h : stringRest s with
    | none => rfl
    | some r =>
      obtain ⟨body, hbody, -, hs⟩ := exists_isStringBody h
      exact absurd ⟨body, r.2, hbody, hs⟩ hopen

theorem IsComment.exists_cons (h : IsComment comment rest) :
    ∃ c content, comment = '/' :: c :: content := by
  cases h with
  | line => exact ⟨_, _, rfl⟩
  | block => exact ⟨_, _, rfl⟩

/-- A comment begins with a slash. -/
theorem not_opensComment_of_ne (h : c ≠ '/') : ¬ OpensComment (c :: s) := by
  rintro ⟨comment, rest, hcomment, heq⟩
  obtain ⟨d, content, rfl⟩ := hcomment.exists_cons
  exact h (List.cons.inj heq).1

theorem opensComment_line (s : List Char) : OpensComment ('/' :: '/' :: s) := by
  refine ⟨'/' :: '/' :: s.takeWhile (· != '\n'), s.dropWhile (· != '\n'), .line ?_ ?_, ?_⟩
  · intro hmem
    have hother := List.all_takeWhile (p := (· != '\n')) (l := s)
    simpa using List.all_eq_true.1 hother _ hmem
  · rcases hdrop : s.dropWhile (· != '\n') with _ | ⟨c, after⟩
    · exact .inl rfl
    · have hstop := List.head?_dropWhile_not (· != '\n') s
      rw [hdrop] at hstop
      simp only [List.head?_cons] at hstop
      exact .inr (by simpa using hstop)
  · simp

/-- A text with a closing mark has a first one. -/
theorem exists_first_close (h : ['*', '/'] <:+: s) :
    ∃ content rest, ¬ ['*', '/'] <:+: content ∧ s = content ++ '*' :: '/' :: rest := by
  induction s with
  | nil => simp at h
  | cons c s ih =>
    by_cases hfirst : ['*', '/'] <+: c :: s
    · obtain ⟨rest, hrest⟩ := hfirst
      exact ⟨[], rest, by simp, hrest.symm⟩
    · obtain ⟨content, rest, hcontent, rfl⟩ := ih ((List.infix_cons_iff.1 h).resolve_left hfirst)
      refine ⟨c :: content, rest, fun hin => ?_, rfl⟩
      refine (List.infix_cons_iff.1 hin).elim (fun hprefix => hfirst ?_) hcontent
      exact hprefix.trans (List.prefix_append (c :: content) ('*' :: '/' :: rest))

theorem exists_of_afterBlock (h : afterBlock s = some after) :
    ∃ content, s = content ++ '*' :: '/' :: after := by
  fun_induction afterBlock s with
  | case1 c d rest hend =>
    cases h
    obtain ⟨rfl, rfl⟩ : c = '*' ∧ d = '/' := by simpa using hend
    exact ⟨[], rfl⟩
  | case2 c d rest _ ih =>
    obtain ⟨content, hcontent⟩ := ih h
    exact ⟨c :: content, congrArg (c :: ·) hcontent⟩
  | case3 => cases h

theorem opensComment_block_iff : OpensComment ('/' :: '*' :: s) ↔ ['*', '/'] <:+: s := by
  constructor
  · rintro ⟨comment, rest, hcomment, hs⟩
    cases hcomment with
    | line => cases hs
    | @block content _ _ =>
      obtain rfl : s = content ++ ['*', '/'] ++ rest := by simpa using hs
      exact ⟨content, rest, rfl⟩
  · intro h
    obtain ⟨content, rest, hcontent, rfl⟩ := exists_first_close h
    exact ⟨_, rest, .block rest hcontent, by simp⟩

theorem afterComment_of_not_opensComment (h : ¬ OpensComment (c :: rest)) :
    afterComment (c :: rest) = none := by
  rcases rest with _ | ⟨d, rest⟩
  · rfl
  rw [afterComment]
  split_ifs with hline hblock
  · obtain ⟨rfl, rfl⟩ : c = '/' ∧ d = '/' := by simpa using hline
    exact absurd (opensComment_line rest) h
  · obtain ⟨rfl, rfl⟩ : c = '/' ∧ d = '*' := by simpa using hblock
    cases hafter : afterBlock rest with
    | none => rfl
    | some after =>
      obtain ⟨content, rfl⟩ := exists_of_afterBlock hafter
      exact absurd (opensComment_block_iff.2 ⟨content, after, by simp⟩) h
  · rfl

/-! ## The pass -/

/-- A piece of a text with comments. -/
inductive Piece where
  /-- a character that stays -/
  | kept (c : Char)
  /-- a comment -/
  | comment (s : List Char)

/-- The text that pieces make up. -/
def Piece.whole (ps : List Piece) : List Char :=
  ps.flatMap fun p =>
    match p with
    | .kept c => [c]
    | .comment s => s

/-- The characters that stay. -/
def Piece.left (ps : List Piece) : List Char :=
  ps.flatMap fun p =>
    match p with
    | .kept c => [c]
    | .comment _ => []

variable {ps qs : List Piece}

@[simp]
theorem whole_nil : Piece.whole [] = [] := rfl

@[simp]
theorem whole_kept (c : Char) (ps : List Piece) :
    Piece.whole (.kept c :: ps) = c :: Piece.whole ps := rfl

@[simp]
theorem whole_comment (s : List Char) (ps : List Piece) :
    Piece.whole (.comment s :: ps) = s ++ Piece.whole ps := rfl

@[simp]
theorem left_nil : Piece.left [] = [] := rfl

@[simp]
theorem left_kept (c : Char) (ps : List Piece) :
    Piece.left (.kept c :: ps) = c :: Piece.left ps := rfl

@[simp]
theorem left_comment (s : List Char) (ps : List Piece) :
    Piece.left (.comment s :: ps) = Piece.left ps := rfl

@[simp]
theorem whole_append (ps qs : List Piece) :
    Piece.whole (ps ++ qs) = Piece.whole ps ++ Piece.whole qs := by
  simp [Piece.whole]

@[simp]
theorem left_append (ps qs : List Piece) :
    Piece.left (ps ++ qs) = Piece.left ps ++ Piece.left qs := by
  simp [Piece.left]

@[simp]
theorem whole_map_kept (s : List Char) : Piece.whole (s.map .kept) = s := by
  induction s with
  | nil => rfl
  | cons c s ih => rw [List.map_cons, whole_kept, ih]

@[simp]
theorem left_map_kept (s : List Char) : Piece.left (s.map .kept) = s := by
  induction s with
  | nil => rfl
  | cons c s ih => rw [List.map_cons, left_kept, ih]

/-- The pass finds the pieces in the text. -/
inductive Scanned : List Char → List Piece → Prop
  | nil : Scanned [] []
  /-- a string stays -/
  | string {body rest : List Char} {ps : List Piece} (hbody : IsStringBody body)
      (h : Scanned rest ps) :
      Scanned ('"' :: (body ++ '"' :: rest)) (('"' :: (body ++ ['"'])).map .kept ++ ps)
  | comment {comment rest : List Char} {ps : List Piece} (hcomment : IsComment comment rest)
      (h : Scanned rest ps) : Scanned (comment ++ rest) (.comment comment :: ps)
  /-- a single character stays that begins neither a comment nor a string -/
  | kept {c : Char} {rest : List Char} {ps : List Piece} (hcomment : ¬ OpensComment (c :: rest))
      (hstring : c = '"' → ¬ ClosesString rest) (h : Scanned rest ps) :
      Scanned (c :: rest) (.kept c :: ps)

/-- A character that is no mark of a string or comment stays. -/
theorem Scanned.plain (hquote : c ≠ '"') (hslash : c ≠ '/') (h : Scanned rest ps) :
    Scanned (c :: rest) (.kept c :: ps) :=
  .kept (not_opensComment_of_ne hslash) (fun hc => absurd hc hquote) h

/-- Every text can be scanned. -/
theorem exists_scanned (s : List Char) : ∃ ps, Scanned s ps := by
  induction hn : s.length using Nat.strongRecOn generalizing s with
  | ind n ih =>
    have hshorter (rest : List Char) (h : rest.length < s.length) : ∃ ps, Scanned rest ps :=
      ih _ (hn ▸ h) rest rfl
    cases s with
    | nil => exact ⟨[], .nil⟩
    | cons c rest =>
      by_cases hcomment : OpensComment (c :: rest)
      · obtain ⟨comment, after, hcomment, heq⟩ := hcomment
        obtain ⟨d, content, hcons⟩ := hcomment.exists_cons
        rw [heq] at hshorter ⊢
        obtain ⟨ps, hps⟩ := hshorter after (by simp [hcons]; omega)
        exact ⟨_, .comment hcomment hps⟩
      · by_cases hstring : c = '"' ∧ ClosesString rest
        · obtain ⟨rfl, body, after, hbody, rfl⟩ := hstring
          obtain ⟨ps, hps⟩ := hshorter after (by simp; omega)
          exact ⟨_, .string hbody hps⟩
        · obtain ⟨ps, hps⟩ := hshorter rest (by simp)
          exact ⟨_, .kept hcomment (fun hc hcloses => hstring ⟨hc, hcloses⟩) hps⟩

theorem Scanned.whole_eq (h : Scanned s ps) : Piece.whole ps = s := by
  induction h with
  | nil => rfl
  | string _ _ ih => simp [ih]
  | comment _ _ ih => rw [whole_comment, ih]
  | kept _ _ _ ih => rw [whole_kept, ih]

/-- A character stays alone where neither a comment nor a string begins. -/
theorem stripComments_kept (hcomment : ¬ OpensComment (c :: rest))
    (hstring : c = '"' → ¬ ClosesString rest) :
    stripComments (c :: rest) = c :: stripComments rest := by
  by_cases hquote : c = '"'
  · exact stripComments_quote hquote (stringRest_eq_none_iff.2 (hstring hquote))
  · exact stripComments_other hquote (afterComment_of_not_opensComment hcomment)

/-- **What the pass keeps is the text without its comments.** -/
theorem Scanned.left_eq (h : Scanned s ps) : Piece.left ps = stripComments s := by
  induction h with
  | nil => simp [stripComments]
  | string hbody _ ih =>
    rw [left_append, left_map_kept, ih,
      stripComments_string (c := '"') rfl (stringRest_of_isStringBody hbody _)]
  | @comment _ rest _ hcomment _ ih =>
    rw [left_comment, ih]
    cases hcomment with
    | line hcontent hend =>
      have hdrop : rest.dropWhile (· != '\n') = rest := by
        rcases hend with rfl | hend
        · rfl
        · obtain ⟨after, rfl⟩ := List.head?_eq_some_iff.1 hend
          rfl
      rw [List.cons_append, List.cons_append, stripComments_line hcontent, hdrop]
    | block rest hcontent =>
      rw [List.cons_append, List.cons_append, List.append_assoc]
      exact (stripComments_block hcontent rest).symm
  | kept hcomment hstring _ ih => rw [left_kept, ih, stripComments_kept hcomment hstring]

/-! ## What is left -/

/-- The pass finds no comment in the text. -/
def CommentFree (s : List Char) : Prop := Scanned s (s.map .kept)

theorem stripComments_of_commentFree (h : CommentFree s) : stripComments s = s := by
  rw [← h.left_eq, left_map_kept]

/-- What stays begins like the text, unless the text begins with a comment. -/
theorem Scanned.exists_cons (h : Scanned s ps) {left : List Char}
    (hleft : Piece.left ps = d :: left) : (∃ rest, s = d :: rest) ∨ ∃ rest, s = '/' :: rest := by
  cases h with
  | nil => cases hleft
  | string =>
    cases hleft
    exact .inl ⟨_, rfl⟩
  | comment hcomment =>
    obtain ⟨c, content, rfl⟩ := hcomment.exists_cons
    exact .inr ⟨_, rfl⟩
  | kept =>
    cases hleft
    exact .inl ⟨_, rfl⟩

/-- The pass keeps a character that is no mark of a string or comment as one piece. -/
theorem Scanned.exists_kept (h : Scanned (c :: rest) ps) (hquote : c ≠ '"') (hslash : c ≠ '/') :
    ∃ qs, Scanned rest qs ∧ ps = .kept c :: qs := by
  generalize hs : c :: rest = s at h
  cases h with
  | nil => cases hs
  | string =>
    cases hs
    exact absurd rfl hquote
  | comment hcomment =>
    obtain ⟨d, content, rfl⟩ := hcomment.exists_cons
    cases hs
    exact absurd rfl hslash
  | kept _ _ h =>
    cases hs
    exact ⟨_, h, rfl⟩

/-- A closing mark in what stays is one in the text: what stood between its halves would have begun
with the second half. -/
theorem Scanned.close_infix (h : Scanned s ps) (hin : ['*', '/'] <:+: Piece.left ps) :
    ['*', '/'] <:+: s := by
  induction h with
  | nil => exact hin
  | @string body rest ps _ _ ih =>
    have hquote : '"' ∉ ['*', '/'] := by decide
    rw [left_append, left_map_kept, List.cons_append, List.append_assoc, List.singleton_append,
      ← List.cons_append] at hin
    rw [← List.cons_append]
    rcases Text.infix_append_cons hquote hin with hbody | hrest
    · exact hbody.trans (List.prefix_append _ _).isInfix
    · exact (ih hrest).trans ((List.suffix_cons _ _).trans (List.suffix_append _ _)).isInfix
  | comment _ _ ih => exact (ih hin).trans (List.suffix_append _ _).isInfix
  | @kept c rest ps _ _ h ih =>
    rw [left_kept] at hin
    rcases List.infix_cons_iff.1 hin with ⟨left, hleft⟩ | hin
    · obtain ⟨rfl, hbehind⟩ := List.cons.inj hleft
      have hhead := h.exists_cons hbehind.symm
      rw [or_self] at hhead
      obtain ⟨after, rfl⟩ := hhead
      exact ⟨[], after, rfl⟩
    · exact (ih hin).trans (List.suffix_cons _ _).isInfix

/-- **No comment arises.** A character that begins no comment begins none when the comments behind it
are gone. -/
theorem Scanned.not_opensComment (h : Scanned rest ps) (hcomment : ¬ OpensComment (c :: rest)) :
    ¬ OpensComment (c :: Piece.left ps) := by
  rintro ⟨comment, after, hopens, hleft⟩
  have hline (hrest : ∃ s, rest = '/' :: s) : c ≠ '/' := by
    rintro rfl
    obtain ⟨s, rfl⟩ := hrest
    exact hcomment (opensComment_line s)
  cases hopens with
  | line =>
    obtain ⟨rfl, hbehind⟩ := List.cons.inj hleft
    exact hline (by simpa using h.exists_cons hbehind) rfl
  | @block content after _ =>
    rw [List.cons_append, List.cons_append, List.append_assoc] at hleft
    obtain ⟨rfl, hbehind⟩ := List.cons.inj hleft
    obtain ⟨s, rfl⟩ := (h.exists_cons hbehind).resolve_right fun hrest => hline hrest rfl
    obtain ⟨qs, hqs, rfl⟩ := h.exists_kept (by decide) (by decide)
    obtain ⟨-, hinside⟩ := List.cons.inj hbehind
    refine hcomment (opensComment_block_iff.2 (hqs.close_infix ⟨content, after, ?_⟩))
    rw [List.append_assoc]
    exact hinside.symm

/-! ## Quotation marks without a partner -/

/-- No quotation mark of the text has a partner. -/
def Unpaired (s : List Char) : Prop := ∀ rest, '"' :: rest <:+ s → ¬ ClosesString rest

/-- No comment begins anywhere in the text. -/
def Bare (s : List Char) : Prop := ∀ rest, rest <:+ s → ¬ OpensComment rest

theorem Unpaired.of_suffix (h : Unpaired s) (hsuffix : rest <:+ s) : Unpaired rest :=
  fun after hafter => h after (hafter.trans hsuffix)

/-- Behind a quotation mark without a partner, every other mark is taken along by a backslash, so the
text behind it is read the same way again. -/
theorem unpaired_of_not_closesString (h : ¬ ClosesString s) : Unpaired s := by
  rw [← stringRest_eq_none_iff] at h
  intro rest hrest
  rw [← stringRest_eq_none_iff]
  fun_induction stringRest s with
  | case1 => simp at hrest
  | case2 => cases h
  | case3 c hquote =>
    rcases List.suffix_cons_iff.1 hrest with heq | hrest
    · cases heq
      exact absurd rfl hquote
    · simp at hrest
  | case4 c hquote _ e after ih =>
    have hafter := Option.map_eq_none_iff.1 h
    rcases List.suffix_cons_iff.1 hrest with heq | hrest
    · cases heq
      exact absurd rfl hquote
    rcases List.suffix_cons_iff.1 hrest with heq | hrest
    · cases heq
      exact hafter
    · exact ih hafter hrest
  | case5 c after hquote _ ih =>
    have hafter := Option.map_eq_none_iff.1 h
    rcases List.suffix_cons_iff.1 hrest with heq | hrest
    · cases heq
      exact absurd rfl hquote
    · exact ih hafter hrest

/-- Where no quotation mark has a partner, every comment is taken out. -/
theorem Scanned.bare (h : Scanned s ps) (hs : Unpaired s) : Bare (Piece.left ps) := by
  induction h with
  | nil =>
    rintro rest hrest ⟨comment, after, hcomment, rfl⟩
    obtain ⟨c, content, rfl⟩ := hcomment.exists_cons
    simp at hrest
  | string hbody => exact absurd ⟨_, _, hbody, rfl⟩ (hs _ List.suffix_rfl)
  | comment _ _ ih => exact ih (hs.of_suffix (List.suffix_append _ _))
  | kept hcomment _ h ih =>
    intro rest hrest
    rw [left_kept] at hrest
    rcases List.suffix_cons_iff.1 hrest with rfl | hrest
    · exact h.not_opensComment hcomment
    · exact ih (hs.of_suffix (List.suffix_cons _ _)) rest hrest

/-- In a text where no comment begins, everything stays. -/
theorem Scanned.eq_map_kept (h : Scanned s ps) (hs : Bare s) : ps = s.map .kept := by
  induction h with
  | nil => rfl
  | @string body rest ps _ _ ih =>
    have hrest : rest <:+ '"' :: (body ++ '"' :: rest) :=
      ((List.suffix_cons _ _).trans (List.suffix_append _ _)).trans (List.suffix_cons _ _)
    rw [ih fun after hafter => hs after (hafter.trans hrest)]
    simp
  | comment hcomment => exact absurd ⟨_, _, hcomment, rfl⟩ (hs _ List.suffix_rfl)
  | kept _ _ _ ih =>
    rw [ih fun after hafter => hs after (hafter.trans (List.suffix_cons _ _)), List.map_cons]

theorem commentFree_of_bare (h : Bare s) : CommentFree s := by
  obtain ⟨ps, hps⟩ := exists_scanned s
  rwa [hps.eq_map_kept h] at hps

/-- A quotation mark begins no comment. -/
theorem Bare.quote (h : Bare s) : Bare ('"' :: s) := by
  intro rest hrest
  rcases List.suffix_cons_iff.1 hrest with rfl | hrest
  · exact not_opensComment_of_ne (by decide)
  · exact h rest hrest

/-! ## Stripping twice -/

theorem Scanned.commentFree_left (h : Scanned s ps) : CommentFree (Piece.left ps) := by
  induction h with
  | nil => exact .nil
  | @string body _ ps hbody _ ih =>
    have hstring := Scanned.string hbody ih
    unfold CommentFree
    simpa using hstring
  | comment _ _ ih => exact ih
  | @kept c _ _ hcomment hstring h ih =>
    rw [left_kept]
    by_cases hquote : c = '"'
    · subst hquote
      exact commentFree_of_bare (h.bare (unpaired_of_not_closesString (hstring rfl))).quote
    · exact .kept (h.not_opensComment hcomment) (fun hc => absurd hc hquote) ih

/-- **Stripping the stripped text returns it**, since no comment is found in it; and a text in which
none is found is returned as it is. -/
theorem stripComments_stripped (s : List Char) :
    stripComments (stripComments s) = stripComments s ∧ CommentFree (stripComments s) ∧
      (CommentFree s → stripComments s = s) := by
  obtain ⟨ps, hps⟩ := exists_scanned s
  have hfree : CommentFree (stripComments s) := hps.left_eq ▸ hps.commentFree_left
  exact ⟨stripComments_of_commentFree hfree, hfree, stripComments_of_commentFree⟩

end Scaffold.Json
