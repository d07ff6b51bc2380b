import Scaffold.Proofs.Json.Scanned
import Scaffold.Json.Parser

/-!
# Where what stays came from

Every character that stays comes from a place in the text with its comments, and so does the end.
`Origin` gives that place by the pieces before it.

* **The character is the same** at both places, and the characters before it that stay are those before
  its place in what is left.
* **The line is that in the text without its comments**, moved down by the line ends in the comments
  before it. Line comments leave their line ends, so only block comments move it.
-/

namespace Scaffold.Json

variable {s : List Char} {n : Nat} {ps before after : List Piece}

/-- The characters that are taken out. -/
def Piece.taken (ps : List Piece) : List Char :=
  ps.flatMap fun p =>
    match p with
    | .kept _ => []
    | .comment s => s

@[simp]
theorem taken_nil : Piece.taken [] = [] := rfl

@[simp]
theorem taken_kept (c : Char) (ps : List Piece) :
    Piece.taken (.kept c :: ps) = Piece.taken ps := rfl

@[simp]
theorem taken_comment (s : List Char) (ps : List Piece) :
    Piece.taken (.comment s :: ps) = s ++ Piece.taken ps := rfl

theorem mem_taken {c : Char} : c ∈ Piece.taken ps ↔ ∃ s, .comment s ∈ ps ∧ c ∈ s := by
  induction ps with
  | nil => simp
  | cons p ps ih => cases p <;> simp [ih, or_and_right, exists_or]

/-- What a text is made of stays or is taken out. -/
theorem count_whole (c : Char) (ps : List Piece) :
    (Piece.whole ps).count c = (Piece.left ps).count c + (Piece.taken ps).count c := by
  induction ps with
  | nil => rfl
  | cons p ps ih =>
    cases p with
    | kept d =>
      simp only [whole_kept, left_kept, taken_kept, List.count_cons, ih]
      omega
    | comment s =>
      simp only [whole_comment, left_comment, taken_comment, List.count_append, ih]
      omega

/-- The line of a place lies below the line of what stays before it by the line ends that are taken
out. -/
theorem lineAfter_whole (ps : List Piece) :
    lineAfter (Piece.whole ps) = lineAfter (Piece.left ps) + (Piece.taken ps).count '\n' := by
  rw [lineAfter, lineAfter, count_whole]
  omega

theorem Scanned.isComment_of_mem (h : Scanned s ps) {comment : List Char}
    (hmem : .comment comment ∈ ps) : ∃ rest, IsComment comment rest := by
  induction h with
  | nil => cases hmem
  | string _ _ ih => exact ih (by simpa using hmem)
  | @comment _ rest _ hcomment _ ih =>
    rcases List.mem_cons.1 hmem with heq | hmem
    · cases heq
      exact ⟨rest, hcomment⟩
    · exact ih hmem
  | kept _ _ _ ih => exact ih (by simpa using hmem)

/-- Behind the pieces `before`, a text goes on with the character that stays as number `n`. Where `n`
is the number of characters that stay, this is the end of the text. -/
structure Origin (s : List Char) (n : Nat) (before after : List Piece) : Prop where
  /-- the pieces are those of the text -/
  scanned : Scanned s (before ++ after)
  /-- `n` characters stay before the place -/
  size : (Piece.left before).length = n
  /-- no comment stands at the place -/
  behind (comment : List Char) : after.head? ≠ some (.comment comment)

/-- Pieces can be split behind any number of characters that stay, comments not left for later. -/
theorem exists_split_of_le (h : n ≤ (Piece.left ps).length) :
    ∃ before after, ps = before ++ after ∧ (Piece.left before).length = n ∧
      ∀ comment, after.head? ≠ some (.comment comment) := by
  induction ps generalizing n with
  | nil => exact ⟨[], [], rfl, (Nat.le_zero.1 h).symm, nofun⟩
  | cons p ps ih =>
    cases p with
    | comment s =>
      obtain ⟨before, after, rfl, hsize, hbehind⟩ := ih h
      exact ⟨.comment s :: before, after, rfl, hsize, hbehind⟩
    | kept c =>
      cases n with
      | zero => exact ⟨[], .kept c :: ps, rfl, rfl, nofun⟩
      | succ n =>
        obtain ⟨before, after, rfl, hsize, hbehind⟩ := ih (Nat.le_of_succ_le_succ h)
        exact ⟨.kept c :: before, after, rfl, by rw [left_kept, List.length_cons, hsize], hbehind⟩

/-- **Everything that stays has an origin**, the end included. -/
theorem exists_origin (h : n ≤ (stripComments s).length) :
    ∃ before after, Origin s n before after := by
  obtain ⟨ps, hps⟩ := exists_scanned s
  rw [← hps.left_eq] at h
  obtain ⟨before, after, rfl, hsize, hbehind⟩ := exists_split_of_le h
  exact ⟨before, after, hps, hsize, hbehind⟩

namespace Origin

/-- What stands before the origin is a part of the text. -/
theorem whole_eq (h : Origin s n before after) : Piece.whole before ++ Piece.whole after = s := by
  rw [← whole_append, h.scanned.whole_eq]

/-- What stays before the origin stands before the place in what is left. -/
theorem left_eq (h : Origin s n before after) : Piece.left before = (stripComments s).take n := by
  rw [← h.scanned.left_eq, left_append, ← h.size, List.take_left]

/-- **The character is the same** at both places. -/
theorem getElem?_eq (h : Origin s n before after) :
    s[(Piece.whole before).length]? = (stripComments s)[n]? := by
  rw [← h.scanned.left_eq, ← h.scanned.whole_eq, left_append, whole_append,
    List.getElem?_append_right (Nat.le_refl _), ← h.size,
    List.getElem?_append_right (Nat.le_refl _), Nat.sub_self, Nat.sub_self]
  cases after with
  | nil => rfl
  | cons p after =>
    cases p with
    | kept c => rfl
    | comment s => exact absurd rfl (h.behind s)

/-- A line end is taken out before the origin where a block comment goes over it. -/
theorem mem_taken_iff (h : Origin s n before after) :
    '\n' ∈ Piece.taken before ↔
      ∃ content, .comment ('/' :: '*' :: content) ∈ before ∧ '\n' ∈ content := by
  rw [mem_taken]
  constructor
  · rintro ⟨comment, hmem, hline⟩
    obtain ⟨rest, hcomment⟩ := h.scanned.isComment_of_mem (List.mem_append_left _ hmem)
    cases hcomment with
    | line hcontent => exact absurd hline (by simpa using hcontent)
    | @block content =>
      exact ⟨content ++ ['*', '/'], hmem, by simpa using hline⟩
  · rintro ⟨content, hmem, hline⟩
    exact ⟨_, hmem, by simp [hline]⟩

/-- **What stays is on the line that it had** exactly if no block comment before it goes over a line
end. -/
theorem lineAfter_eq_iff (h : Origin s n before after) :
    lineAfter ((stripComments s).take n) = lineAfter (Piece.whole before) ↔
      ∀ content, .comment ('/' :: '*' :: content) ∈ before → '\n' ∉ content := by
  have hcount : (Piece.taken before).count '\n' = 0 ↔ '\n' ∉ Piece.taken before :=
    List.count_eq_zero
  rw [lineAfter_whole, h.left_eq, Nat.left_eq_add, hcount, h.mem_taken_iff]
  simp

end Origin

end Scaffold.Json
