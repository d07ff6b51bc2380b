import Scaffold.Proofs.Template.Lines
import Scaffold.Proofs.Template.Names

/-!
# What rendering leaves on a line of its own

A placeholder that has a line to itself never stays as it is written. One that shares its line does, if
its name is unbound. It has the line to itself then if everything else there came to nothing.

* **Kept.** An unbound placeholder stays, and the rest of its line comes to blanks.
* **Formed.** Braces that belong to no placeholder come together around a body when all that stood
  between them came to nothing.
* **Nothing else** leaves a placeholder on a line of its own, as long as the texts of the context hold
  no braces.
-/

namespace Scaffold.Template

open Text

variable {s t u v line rest before body after : List Char} {n : String} {c : Char} {ctx : Context}
  {p : Piece} {ps : List Piece} {value : Value} {lineStart : Bool}

/-! ## Placeholders alone on a line -/

/-- Some line of the text consists of blanks and one placeholder. -/
def HasBareLine (s : List Char) : Prop :=
  ∃ line ∈ linesOf s, ∃ indent n trail, IsConditional line indent n trail

/-- A line begins behind the text. -/
def BeforeLine (s : List Char) : Prop := s = [] ∨ ∃ t, s = t ++ ['\n']

/-- What follows the text has nothing but blanks before it on its line. -/
def EndsBlank (s : List Char) : Prop := ∃ t blanks, s = t ++ blanks ∧ BeforeLine t ∧ Blanks blanks

/-- What stands before the text has nothing but blanks behind it on its line. -/
def StartsBlank (s : List Char) : Prop :=
  ∃ blanks ending rest, s = blanks ++ (ending ++ rest) ∧ Blanks blanks ∧ IsLineEnd ending ∧
    (ending = [] → rest = [])

theorem linesOf_append_of_beforeLine (ht : BeforeLine t) (rest : List Char) :
    linesOf (t ++ rest) = linesOf t ++ linesOf rest := by
  rcases ht with rfl | ⟨t, rfl⟩
  · rfl
  · refine List.splitBy_append fun c hc _ _ => ?_
    rw [List.getLast?_concat] at hc
    cases hc
    rfl

theorem BeforeLine.append (hs : BeforeLine s) (ht : BeforeLine t) : BeforeLine (s ++ t) := by
  rcases ht with rfl | ⟨t, rfl⟩
  · rwa [List.append_nil]
  · exact .inr ⟨s ++ t, by simp⟩

/-- A line that another one follows has a newline. -/
theorem IsLine.beforeLine (h : IsLine line rest) (hrest : rest ≠ []) : BeforeLine line := by
  cases h with
  | ended => exact .inr ⟨_, rfl⟩
  | last => exact absurd rfl hrest

/-- A line of a text begins where a line begins. -/
theorem exists_of_mem_linesOf (hmem : line ∈ linesOf s) :
    ∃ t rest, s = t ++ (line ++ rest) ∧ BeforeLine t ∧ IsLine line rest := by
  have hline : line ≠ [] := List.ne_nil_of_mem_splitBy hmem
  induction hlen : s.length using Nat.strong_induction_on generalizing s with
  | _ k ih =>
    subst hlen
    have hs : s ≠ [] := by
      rintro rfl
      cases hmem
    obtain ⟨first, after, rfl, hne, hfirst, hlines⟩ := exists_line hs
    rw [hlines] at hmem
    rcases List.mem_cons.1 hmem with rfl | hmem
    · exact ⟨[], after, rfl, .inl rfl, hfirst⟩
    · obtain ⟨t, rest, rfl, ht, hrest⟩ := ih _ (by simp [List.length_pos_iff.2 hne]) hmem rfl
      exact ⟨first ++ t, rest, by simp, (hfirst.beforeLine (by simp [hline])).append ht, hrest⟩

/-- What goes up to a line end from where a line begins is a line of the text. -/
theorem mem_linesOf_of_isLine (ht : BeforeLine t) (hline : IsLine line rest) (hne : line ≠ []) :
    line ∈ linesOf (t ++ (line ++ rest)) := by
  obtain ⟨first, after, heq, -, hfirst, hlines⟩ := exists_line (s := line ++ rest) (by simp [hne])
  obtain ⟨rfl, -⟩ := hline.unique hfirst heq
  rw [linesOf_append_of_beforeLine ht, hlines]
  exact List.mem_append_right _ (.head _)

/-- A line is bare if there are only blanks before and behind a placeholder on it. -/
theorem hasBareLine_iff :
    HasBareLine s ↔ ∃ before text n after, s = before ++ (text ++ after) ∧ IsPlaceholder text n ∧
      EndsBlank before ∧ StartsBlank after := by
  constructor
  · rintro ⟨line, hmem, indent, n, trail, text, blanks, ending, hindent, htext, hblanks, hending, rfl,
      rfl⟩
    obtain ⟨t, rest, rfl, ht, hline⟩ := exists_of_mem_linesOf hmem
    refine ⟨t ++ indent, text, n, blanks ++ (ending ++ rest), by simp, htext,
      ⟨t, indent, rfl, ht, hindent⟩, blanks, ending, rest, rfl, hblanks, hending, ?_⟩
    rintro rfl
    refine hline.eq_nil ?_
    rw [List.append_nil]
    exact not_mem_before_lineEnd hindent htext hblanks
  · rintro ⟨_, text, n, _, rfl, htext, ⟨t, indent, rfl, ht, hindent⟩, blanks, ending, rest, rfl,
      hblanks, hending, hrest⟩
    have hline : IsLine (indent ++ text ++ (blanks ++ ending)) rest := by
      rw [← List.append_assoc]
      exact hending.isLine (not_mem_before_lineEnd hindent htext hblanks) hrest
    refine ⟨_, ?_, indent, n, _, text, blanks, ending, hindent, htext, hblanks, hending, rfl, rfl⟩
    have hmem := mem_linesOf_of_isLine ht hline (by simp [htext.ne_nil])
    simpa using hmem

/-! ## Braces in a rendering -/

/-- A text without braces. -/
def Braceless (s : List Char) : Prop := ∀ c ∈ s, c ≠ '\x7b' ∧ c ≠ '\x7d'

instance (s : List Char) : Decidable (Braceless s) :=
  inferInstanceAs (Decidable (∀ c ∈ s, c ≠ '\x7b' ∧ c ≠ '\x7d'))

/-- The texts that names are bound to hold no braces. -/
def BracelessTexts (ctx : Context) : Prop :=
  ∀ n s, ctx.get? n = some (.text s) → Braceless s.toList

theorem bracelessTexts_of_forall (h : ∀ e ∈ ctx, Braceless e.2.chars) : BracelessTexts ctx :=
  fun _ _ hn => h _ (Entries.mem_of_get? hn)

/-- A piece is what its place in a template makes it. -/
def Piece.IsCut : Piece → Prop
  | .line l => IsConditional l.chars l.indent (nameOf l.body) l.trail
  | .token body => IsPlaceholder (braced body) (nameOf body)
  | .plain _ => True

theorem isCut_of_mem_pieces (hp : p ∈ pieces lineStart s) : p.IsCut := by
  fun_induction pieces lineStart s with
  | case1 lineStart s l rest hline ih =>
    rcases List.mem_cons.1 hp with rfl | hp
    · cases lineStart with
      | false => cases hline
      | true =>
        rw [dif_pos rfl] at hline
        exact (isConditional_of_conditionalLine? hline).1
    · exact ih hp
  | case2 lineStart s hline body rest hplaceholder ih =>
    rcases List.mem_cons.1 hp with rfl | hp
    · exact isPlaceholder_of_placeholder? hplaceholder
    · exact ih hp
  | case3 => cases hp
  | case4 lineStart c rest hline hplaceholder ih =>
    rcases List.mem_cons.1 hp with rfl | hp
    · trivial
    · exact ih hp

theorem braceless_append : Braceless (s ++ t) ↔ Braceless s ∧ Braceless t := List.forall_mem_append

theorem braceless_of_isBodyChar (hs : ∀ c ∈ s, isBodyChar c = true) : Braceless s := by
  intro c hc
  constructor <;> (rintro rfl; exact absurd (hs _ hc) (by decide))

theorem Blanks.braceless (hs : Blanks s) : Braceless s := by
  intro c hc
  constructor <;> (rintro rfl; exact absurd (hs _ hc) (by decide))

theorem braceless_toString (i : Int) : Braceless (toString i).toList := by
  have hdigits (k : Nat) : Braceless (Nat.repr k).toList := by
    intro c hc
    rw [Nat.toList_repr] at hc
    have hdigit := Nat.isDigit_of_mem_toDigits (by decide) (by decide) hc
    constructor <;> (rintro rfl; exact absurd hdigit (by decide))
  rw [Int.toString_eq_repr]
  cases i with
  | ofNat k => exact hdigits k
  | negSucc k =>
    change Braceless ("-" ++ Nat.repr (k + 1)).toList
    rw [String.toList_append, braceless_append]
    exact ⟨by decide, hdigits _⟩

theorem BracelessTexts.braceless_shown? (hctx : BracelessTexts ctx) (hn : ctx.get? n = some value)
    (h : value.shown? = some s) : Braceless s := by
  cases value with
  | absent => cases h
  | flag on =>
    cases on <;> cases h
    exact nofun
  | text w =>
    obtain ⟨-, hs⟩ := Option.ite_none_left_eq_some.1 h
    cases hs
    exact hctx n w hn
  | number i =>
    obtain ⟨-, hs⟩ := Option.ite_none_left_eq_some.1 h
    cases hs
    exact braceless_toString i

/-- A brace in a rendering is part of an unbound placeholder that shares its line, or belongs to no
placeholder. -/
theorem Piece.of_brace (hctx : BracelessTexts ctx) (hp : p.IsCut) (hc : c ∈ p.text ctx)
    (hbrace : c = '\x7b' ∨ c = '\x7d') :
    (∃ body, p = .token body ∧ ctx.get? (nameOf body) = none) ∨ p = .plain c := by
  have hnot {s : List Char} (hs : Braceless s) : c ∉ s := by
    intro hmem
    rcases hbrace with rfl | rfl
    · exact (hs _ hmem).1 rfl
    · exact (hs _ hmem).2 rfl
  cases p with
  | line l =>
    obtain ⟨text, blanks, ending, hindent, -, hblanks, hending, htrail, -⟩ := hp
    have hafter : Braceless ending := by
      rcases hending with rfl | rfl | rfl <;> decide
    rw [Piece.text, lineText] at hc
    split at hc
    · cases hc
    · rename_i shown hshown
      obtain ⟨v, hv, hshown⟩ := Option.bind_eq_some_iff.1 hshown
      rw [htrail] at hc
      refine absurd hc (hnot ?_)
      simp only [braceless_append]
      exact ⟨⟨hindent.braceless, hctx.braceless_shown? hv hshown⟩, hblanks.braceless, hafter⟩
  | token body =>
    rw [Piece.text, inlineText] at hc
    split at hc
    · exact .inl ⟨body, rfl, ‹_›⟩
    · rename_i v hv
      cases hshown : v.shown? with
      | none =>
        rw [hshown] at hc
        cases hc
      | some shown =>
        rw [hshown] at hc
        exact absurd hc (hnot (hctx.braceless_shown? hv hshown))
  | plain d => exact .inr (congrArg Piece.plain (List.mem_singleton.1 hc).symm)

/-- A character of a rendering comes from one of the pieces. -/
theorem exists_piece (h : ps.flatMap (Piece.text ctx) = before ++ c :: after) :
    ∃ P p Q u v, ps = P ++ p :: Q ∧ p.text ctx = u ++ c :: v ∧
      before = P.flatMap (Piece.text ctx) ++ u ∧ after = v ++ Q.flatMap (Piece.text ctx) := by
  induction ps generalizing before with
  | nil => simp at h
  | cons p ps ih =>
    rw [List.flatMap_cons, List.append_eq_append_iff] at h
    rcases h with ⟨w, rfl, hrest⟩ | ⟨w, hp, hrest⟩
    · obtain ⟨P, q, Q, u, v, rfl, hq, rfl, rfl⟩ := ih hrest
      exact ⟨p :: P, q, Q, u, v, rfl, hq, by simp, rfl⟩
    · cases w with
      | nil =>
        obtain ⟨P, q, Q, u, v, rfl, hq, hu, rfl⟩ := ih (hrest.symm.trans (List.nil_append _).symm)
        rw [List.append_nil] at hp
        refine ⟨p :: P, q, Q, u, v, rfl, hq, ?_, rfl⟩
        rw [List.flatMap_cons, List.append_assoc, ← hu, hp, List.append_nil]
      | cons d w =>
        obtain ⟨rfl, rfl⟩ := List.cons.inj hrest
        exact ⟨[], p, ps, before, w, rfl, hp, rfl, rfl⟩

/-- A brace of a rendering comes from an unbound placeholder, or from nothing but itself. -/
theorem exists_brace (hctx : BracelessTexts ctx) (hcut : ∀ p ∈ ps, p.IsCut)
    (hbrace : c = '\x7b' ∨ c = '\x7d') (h : ps.flatMap (Piece.text ctx) = before ++ c :: after) :
    (∃ P body Q u v, ps = P ++ .token body :: Q ∧ ctx.get? (nameOf body) = none ∧
        IsPlaceholder (braced body) (nameOf body) ∧ braced body = u ++ c :: v ∧
        before = P.flatMap (Piece.text ctx) ++ u ∧ after = v ++ Q.flatMap (Piece.text ctx)) ∨
      ∃ P Q, ps = P ++ .plain c :: Q ∧ before = P.flatMap (Piece.text ctx) ∧
        after = Q.flatMap (Piece.text ctx) := by
  obtain ⟨P, p, Q, u, v, rfl, hp, rfl, rfl⟩ := exists_piece h
  have hpcut : p.IsCut := hcut p (by simp)
  rcases Piece.of_brace hctx hpcut (by simp [hp]) hbrace with ⟨body, rfl, hn⟩ | rfl
  · rw [Piece.text, inlineText, hn] at hp
    exact .inl ⟨P, body, Q, u, v, rfl, hn, hpcut, hp, rfl, rfl⟩
  · obtain ⟨rfl, rfl⟩ : u = [] ∧ v = [] := by
      have hlength := congrArg List.length hp
      simp only [Piece.text, List.length_append, List.length_cons, List.length_nil] at hlength
      exact ⟨List.length_eq_zero_iff.1 (by omega), List.length_eq_zero_iff.1 (by omega)⟩
    exact .inr ⟨P, Q, rfl, by simp, rfl⟩

/-- A closing brace that no opening one stands before belongs to no placeholder. -/
theorem exists_closing (hctx : BracelessTexts ctx) (hcut : ∀ p ∈ ps, p.IsCut)
    (h : ps.flatMap (Piece.text ctx) = before ++ '\x7d' :: after) (hbefore : '\x7b' ∉ before) :
    ∃ P Q, ps = P ++ .plain '\x7d' :: Q ∧ P.flatMap (Piece.text ctx) = before ∧
      Q.flatMap (Piece.text ctx) = after := by
  rcases exists_brace hctx hcut (.inr rfl) h with ⟨P, body, Q, u, v, -, -, -, hbody, rfl, -⟩ |
    ⟨P, Q, rfl, rfl, rfl⟩
  · cases u with
    | nil => cases (List.cons.inj hbody).1
    | cons d u =>
      obtain rfl := (List.cons.inj hbody).1
      simp at hbefore
  · exact ⟨P, Q, rfl, rfl, rfl⟩

/-- The opening braces of a placeholder are its first two characters. -/
theorem braced_eq_append_cons (hbody : Braceless body) (h : braced body = u ++ '\x7b' :: v) :
    u = [] ∧ v = '\x7b' :: (body ++ ['\x7d', '\x7d']) ∨
      u = ['\x7b'] ∧ v = body ++ ['\x7d', '\x7d'] := by
  rw [braced, List.cons_append, List.cons_append] at h
  rcases u with _ | ⟨d, _ | ⟨e, u⟩⟩
  · exact .inl ⟨rfl, (List.cons.inj h).2.symm⟩
  · obtain ⟨rfl, hrest⟩ := List.cons.inj h
    exact .inr ⟨rfl, (List.cons.inj hrest).2.symm⟩
  · have hmem : '\x7b' ∈ body ++ ['\x7d', '\x7d'] := by
      rw [(List.cons.inj (List.cons.inj h).2).2]
      simp
    rcases List.mem_append.1 hmem with hmem | hmem
    · exact absurd rfl (hbody _ hmem).1
    · exact absurd hmem (by decide)

/-! ## What is left -/

/-- A placeholder that the pieces leave, with the text before it and the text behind it. -/
inductive Leaves (ctx : Context) (ps : List Piece) : List Char → List Char → List Char → Prop
  /-- an unbound placeholder that shares its line -/
  | kept {P Q : List Piece} {body : List Char} (hps : ps = P ++ .token body :: Q)
      (hn : ctx.get? (nameOf body) = none) :
      Leaves ctx ps (P.flatMap (Piece.text ctx)) body (Q.flatMap (Piece.text ctx))
  /-- braces that belong to no placeholder, with nothing between the two of a pair -/
  | formed {P E W E' Q : List Piece}
      (hps : ps = P ++ .plain '\x7b' :: (E ++ .plain '\x7b' :: (W ++
        .plain '\x7d' :: (E' ++ .plain '\x7d' :: Q))))
      (hopening : E.flatMap (Piece.text ctx) = []) (hne : W.flatMap (Piece.text ctx) ≠ [])
      (hbody : ∀ c ∈ W.flatMap (Piece.text ctx), isBodyChar c = true)
      (hclosing : E'.flatMap (Piece.text ctx) = []) :
      Leaves ctx ps (P.flatMap (Piece.text ctx)) (W.flatMap (Piece.text ctx))
        (Q.flatMap (Piece.text ctx))

theorem isPlaceholder_braced_iff :
    (∃ n, IsPlaceholder (braced body) n) ↔ body ≠ [] ∧ ∀ c ∈ body, isBodyChar c = true := by
  constructor
  · rintro ⟨n, other, name, heq, hbody, hname, -⟩
    obtain rfl : body = other := by simpa [braced] using heq
    exact ⟨hname.ne_nil, hbody⟩
  · rintro ⟨hne, hbody⟩
    obtain ⟨name, hname⟩ := exists_mentions hne
    exact ⟨_, body, name, rfl, hbody, hname, rfl⟩

theorem Leaves.eq (h : Leaves ctx ps before body after) :
    ps.flatMap (Piece.text ctx) = before ++ (braced body ++ after) := by
  cases h with
  | kept hps hn => simp [hps, Piece.text, inlineText, hn]
  | formed hps hopening _ _ hclosing => simp [hps, Piece.text, hopening, hclosing, braced]

theorem Leaves.isPlaceholder (h : Leaves ctx ps before body after) (hcut : ∀ p ∈ ps, p.IsCut) :
    ∃ n, IsPlaceholder (braced body) n := by
  cases h with
  | @kept P Q body hps hn => exact ⟨_, hcut (.token body) (by simp [hps])⟩
  | formed _ _ hne hbody _ => exact isPlaceholder_braced_iff.2 ⟨hne, hbody⟩

theorem append_ne_cons_of_not_mem (hs : s ≠ []) (hc : c ∉ s) : s ++ t ≠ c :: u := by
  obtain ⟨d, s, rfl⟩ := List.exists_cons_of_ne_nil hs
  intro h
  exact hc ((List.cons.inj h).1 ▸ .head _)

/-- The body of a placeholder has characters, and no braces among them. -/
theorem parts_of_isPlaceholder_braced (h : IsPlaceholder (braced body) n) :
    body ≠ [] ∧ Braceless body ∧ '\x7b' ∉ body ∧ '\x7d' ∉ body := by
  obtain ⟨hne, hbody⟩ := isPlaceholder_braced_iff.1 ⟨n, h⟩
  have hbraceless := braceless_of_isBodyChar hbody
  exact ⟨hne, hbraceless, fun hmem => (hbraceless _ hmem).1 rfl, fun hmem => (hbraceless _ hmem).2 rfl⟩

/-- Behind an opening brace that belongs to no placeholder, the other braces of what looks like one belong
to none either. -/
theorem exists_formed (hctx : BracelessTexts ctx) (hcut : ∀ p ∈ ps, p.IsCut)
    (hbody : IsPlaceholder (braced body) n)
    (h : ps.flatMap (Piece.text ctx) = '\x7b' :: (body ++ '\x7d' :: '\x7d' :: after)) :
    ∃ E W E' Q, ps = E ++ .plain '\x7b' :: (W ++ .plain '\x7d' :: (E' ++ .plain '\x7d' :: Q)) ∧
      E.flatMap (Piece.text ctx) = [] ∧ W.flatMap (Piece.text ctx) = body ∧
      E'.flatMap (Piece.text ctx) = [] ∧ Q.flatMap (Piece.text ctx) = after := by
  obtain ⟨hne, -, hopening, -⟩ := parts_of_isPlaceholder_braced hbody
  rcases exists_brace hctx hcut (.inl rfl) (h.trans (List.nil_append _).symm) with
    ⟨E, other, Q, u, v, -, -, hother, hbraced, hu, hv⟩ | ⟨E, ps, rfl, hE, hps⟩
  · -- behind the first brace of a placeholder stands another one, and not the body
    obtain ⟨-, hbraceless, -, -⟩ := parts_of_isPlaceholder_braced hother
    rcases braced_eq_append_cons hbraceless hbraced with ⟨-, rfl⟩ | ⟨rfl, -⟩
    · exact absurd hv (append_ne_cons_of_not_mem hne hopening)
    · simp at hu
  · have hcut : ∀ p ∈ ps, p.IsCut := fun p hp => hcut p (by simp [hp])
    obtain ⟨W, ps, rfl, hW, hps⟩ := exists_closing hctx hcut hps.symm hopening
    obtain ⟨E', Q, rfl, hE', hQ⟩ := exists_closing hctx (fun p hp => hcut p (by simp [hp]))
      (hps.trans (List.nil_append _).symm) List.not_mem_nil
    exact ⟨E, W, E', Q, rfl, hE.symm, hW, hE', hQ⟩

/-- Every placeholder of a rendering was kept or formed. -/
theorem leaves_of_eq (hctx : BracelessTexts ctx) (hcut : ∀ p ∈ ps, p.IsCut)
    (hbody : IsPlaceholder (braced body) n)
    (h : ps.flatMap (Piece.text ctx) = before ++ (braced body ++ after)) :
    Leaves ctx ps before body after := by
  have hbraces : ps.flatMap (Piece.text ctx) =
      before ++ '\x7b' :: '\x7b' :: (body ++ '\x7d' :: '\x7d' :: after) := by
    rw [h]
    simp [braced]
  rcases exists_brace hctx hcut (.inl rfl) hbraces with
    ⟨P, other, Q, u, v, rfl, hn, hother, hbraced, rfl, hrest⟩ | ⟨P, ps, rfl, rfl, hrest⟩
  · obtain ⟨-, -, -, hclosing⟩ := parts_of_isPlaceholder_braced hbody
    obtain ⟨hne, hbraceless, hopening, hclosing'⟩ := parts_of_isPlaceholder_braced hother
    rcases braced_eq_append_cons hbraceless hbraced with ⟨rfl, rfl⟩ | ⟨-, rfl⟩
    · have heq : body ++ '\x7d' :: ('\x7d' :: after) =
          other ++ '\x7d' :: ('\x7d' :: Q.flatMap (Piece.text ctx)) := by
        simpa using hrest
      obtain ⟨rfl, hafter⟩ := append_cons_inj_of_not_mem heq hclosing hclosing'
      obtain rfl := (List.cons.inj hafter).2
      rw [List.append_nil]
      exact .kept rfl hn
    · -- behind the second brace of a placeholder stands its body, and not another brace
      rw [List.append_assoc] at hrest
      exact absurd hrest.symm (append_ne_cons_of_not_mem hne hopening)
  · obtain ⟨E, W, E', Q, rfl, hE, rfl, hE', rfl⟩ :=
      exists_formed hctx (fun p hp => hcut p (by simp [hp])) hbody hrest.symm
    obtain ⟨hne, hchars⟩ := isPlaceholder_braced_iff.1 ⟨n, hbody⟩
    exact .formed rfl hE hne hchars hE'

/-- A placeholder on a line of its own was kept or formed. -/
theorem HasBareLine.exists_leaves {template : String} (hctx : BracelessTexts ctx)
    (h : HasBareLine (render ctx template).toList) :
    ∃ before body after, Leaves ctx (pieces true template.toList) before body after ∧
      EndsBlank before ∧ StartsBlank after := by
  obtain ⟨before, text, n, after, heq, htext, hbefore, hafter⟩ := hasBareLine_iff.1 h
  rw [toList_render] at heq
  obtain ⟨body, -, rfl, -⟩ := id htext
  exact ⟨before, body, after, leaves_of_eq hctx (fun p => isCut_of_mem_pieces) htext heq, hbefore, hafter⟩

/-- Nothing is left if the placeholders that share their lines are bound, and no other opening braces
stand in the template. -/
theorem not_hasBareLine_render {template : String} (hctx : BracelessTexts ctx)
    (hbound : ∀ body, .token body ∈ pieces true template.toList → ctx.get? (nameOf body) ≠ none)
    (hplain : .plain '\x7b' ∉ pieces true template.toList) :
    ¬ HasBareLine (render ctx template).toList := by
  intro h
  obtain ⟨before, body, after, hleaves, -, -⟩ := h.exists_leaves hctx
  cases hleaves with
  | kept hps hn => exact hbound body (by simp [hps]) hn
  | formed hps => exact hplain (by simp [hps])

/-- **When a placeholder is left on a line of its own.** In a context whose texts hold no braces that is
so exactly if one was kept or formed with nothing but blanks before and behind it. -/
theorem hasBareLine_render_iff (hctx : BracelessTexts ctx) (template : String) :
    HasBareLine (render ctx template).toList ↔
      ∃ before body after, Leaves ctx (pieces true template.toList) before body after ∧
        EndsBlank before ∧ StartsBlank after := by
  constructor
  · exact HasBareLine.exists_leaves hctx
  · rintro ⟨before, body, after, hleaves, hbefore, hafter⟩
    obtain ⟨n, htext⟩ := hleaves.isPlaceholder fun p => isCut_of_mem_pieces
    rw [hasBareLine_iff, toList_render]
    exact ⟨before, braced body, n, after, hleaves.eq, htext, hbefore, hafter⟩

/-- Braces that come together when the placeholder between them is emptied. -/
theorem hasBareLine_render_iff_formed :
    ∃ ctx template, ctx = [("a", .text ""), ("b", .text "x")] ∧
      template = "\x7b\x7b b \x7d\x7d:\n  \x7b\x7b\x7b a \x7d\x7d\x7b c \x7d\x7d\n" ∧
      BracelessTexts ctx ∧ render ctx template = "x:\n  \x7b\x7b c \x7d\x7d\n" ∧
      HasBareLine (render ctx template).toList := by
  have hctx : BracelessTexts [("a", .text ""), ("b", .text "x")] := bracelessTexts_of_forall (by decide)
  have hrender : render [("a", .text ""), ("b", .text "x")]
      "\x7b\x7b b \x7d\x7d:\n  \x7b\x7b\x7b a \x7d\x7d\x7b c \x7d\x7d\n" =
        "x:\n  \x7b\x7b c \x7d\x7d\n" := by
    decide +kernel
  refine ⟨_, _, rfl, rfl, hctx, hrender, (hasBareLine_render_iff hctx _).2 ?_⟩
  let P : List Piece := [.token " b ".toList, .plain ':', .plain '\n', .plain ' ', .plain ' ']
  let W : List Piece := [.plain ' ', .plain 'c', .plain ' ']
  have hps : pieces true
      "\x7b\x7b b \x7d\x7d:\n  \x7b\x7b\x7b a \x7d\x7d\x7b c \x7d\x7d\n".toList =
        P ++ Piece.plain '\x7b' :: ([Piece.token " a ".toList] ++ Piece.plain '\x7b' ::
          (W ++ Piece.plain '\x7d' :: ([] ++ Piece.plain '\x7d' :: [Piece.plain '\n']))) := by
    decide +kernel
  have hspaces : ∀ c ∈ "  ".toList, isSpacing c = true := by decide
  exact ⟨_, _, _, .formed hps (by decide +kernel) (by decide +kernel) (by decide +kernel) rfl,
    ⟨"x:\n".toList, "  ".toList, by decide +kernel, .inr ⟨"x:".toList, rfl⟩, hspaces⟩,
    ⟨[], ['\n'], [], rfl, nofun, .inr (.inl rfl), nofun⟩⟩

/-- **An unbound placeholder is left alone** by one beside it that is emptied. -/
theorem not_stripped_beside_empty :
    ∃ ctx template, ctx = [("a", .text "")] ∧
      template = "\x7b\x7b a \x7d\x7d\x7b\x7b b \x7d\x7d\n" ∧ BracelessTexts ctx ∧
      render ctx template = "\x7b\x7b b \x7d\x7d\n" ∧ HasBareLine (render ctx template).toList := by
  have hrender : render [("a", .text "")] "\x7b\x7b a \x7d\x7d\x7b\x7b b \x7d\x7d\n" =
      "\x7b\x7b b \x7d\x7d\n" := by
    decide +kernel
  refine ⟨_, _, rfl, rfl, bracelessTexts_of_forall (by decide), hrender, ?_⟩
  rw [hrender]
  have hplaceholder : placeholder? "\x7b\x7b b \x7d\x7d\n".toList = some (" b ".toList, ['\n']) := by
    decide +kernel
  exact hasBareLine_iff.2 ⟨[], _, _, ['\n'], placeholder?_eq hplaceholder,
    isPlaceholder_of_placeholder? hplaceholder, ⟨[], [], rfl, .inl rfl, nofun⟩,
    ⟨[], ['\n'], [], rfl, nofun, .inr (.inl rfl), nofun⟩⟩

end Scaffold.Template
