import Scaffold.Proofs.Disk.Lockstep

/-!
# What runs need of the files

A run reads files that have to be there and to be as expected, and writes files whose places have to be
free for them. These are its needs, in the order in which they come up, and a run is governed by them:
the first need that is not met decides how it ends.

* **All needs met.** The run succeeds.
* **A need is refused.** A file is not there, or its text is not accepted. The program looks for that,
  and ends the run with a failure of its own.
* **A need is barred.** The bytes of a file are no text, what is to be written for its text is none, or
  something is in the way of a write. The program does not look for that, and the failure is whatever
  the operation on the file ends with.
-/

namespace Scaffold

open Run Feature

/-- What a run needs of one file below the project's directory. -/
inductive Need where
  /-- the file is there, its text is accepted, and what is to be written for it can be encoded -/
  | text (names : List String) (accepts : String → Bool) (encodable : String → Bool := fun _ => true)
  /-- a file can be written there -/
  | place (names : List String)

namespace Need

/-- The names of the file. -/
def names : Need → List String
  | .text names _ _ => names
  | .place names => names

/-- The files meet the need. -/
def Met (project : Path) (root : List String) (s : Session) : Need → Prop
  | .text names accepts encodable => ∃ content, Disk.Reads (below project names) content s ∧
      accepts content = true ∧ encodable content = true
  | .place names => Disk.Writable project root names s

/-- The files do not meet the need, and the program does not look for the reason. -/
def Barred (project : Path) (root : List String) (s : Session) : Need → Prop
  | .text names accepts encodable =>
    (∃ c f, s.tree.readFile? s.here (below project names) = some c ∧ Disk.textOf c = .error f) ∨
      ∃ content, Disk.Reads (below project names) content s ∧ accepts content = true ∧
        encodable content = false
  | .place names => ¬ Disk.Writable project root names s

/-- The files meet all needs. -/
def AllMet (project : Path) (root : List String) (s : Session) (ns : List Need) : Prop :=
  ∀ n ∈ ns, n.Met project root s

/-- The first need that is not met is barred. -/
def Hindered (project : Path) (root : List String) (s : Session) : List Need → Prop
  | [] => False
  | n :: ns => n.Barred project root s ∨ (n.Met project root s ∧ Hindered project root s ns)

end Need

section Reads

variable {project : Path} {root names : List String} {s : Session} {content : String}
  {accepts encodable : String → Bool} (h : Disk.Reads (below project names) content s)
include h

/-- A text that is read has to be accepted, and to lead to one that can be encoded. -/
theorem Disk.Reads.met_iff : (Need.text names accepts encodable).Met project root s ↔
    accepts content = true ∧ encodable content = true := by
  constructor
  · rintro ⟨content', hreads', haccepts⟩
    rwa [h.unique hreads']
  · exact fun haccepts => ⟨content, h, haccepts⟩

theorem Disk.Reads.barred_iff : (Need.text names accepts encodable).Barred project root s ↔
    accepts content = true ∧ encodable content = false := by
  constructor
  · rintro (⟨c', f, hc', herror⟩ | ⟨content', hreads', hbarred⟩)
    · obtain ⟨c, hc, htext⟩ := h
      cases hc.symm.trans hc'
      cases htext.symm.trans herror
    · rwa [h.unique hreads']
  · exact fun hbarred => .inr ⟨content, h, hbarred⟩

end Reads

namespace Need

variable {project : Path} {root : List String} {s t : Session} {n : Need} {ns ms : List Need}

theorem Barred.not_met (h : n.Barred project root s) : ¬ n.Met project root s := by
  cases n with
  | text names accepts encodable =>
    rintro ⟨content, hreads, -, hencodable⟩
    rw [((Disk.Reads.barred_iff hreads).1 h).2] at hencodable
    cases hencodable
  | place names => exact h

theorem allMet_nil : AllMet project root s [] := nofun

theorem allMet_append :
    AllMet project root s (ns ++ ms) ↔ AllMet project root s ns ∧ AllMet project root s ms :=
  List.forall_mem_append

theorem hindered_append : Hindered project root s (ns ++ ms) ↔
    Hindered project root s ns ∨ (AllMet project root s ns ∧ Hindered project root s ms) := by
  induction ns with
  | nil => simp [Hindered, allMet_nil]
  | cons n ns ih =>
    have hall : AllMet project root s (n :: ns) ↔ n.Met project root s ∧ AllMet project root s ns :=
      List.forall_mem_cons
    rw [List.cons_append, Hindered, Hindered, ih, hall]
    tauto

/-- Needs that are all met do not hinder. -/
theorem not_hindered_of_allMet (h : AllMet project root s ns) : ¬ Hindered project root s ns := by
  induction ns with
  | nil => exact not_false
  | cons n ns ih =>
    obtain ⟨hn, hns⟩ := List.forall_mem_cons.1 h
    rintro (hbarred | ⟨-, hlater⟩)
    · exact hbarred.not_met hn
    · exact ih hns hlater

/-- A need that comes up at one session is met or barred there as another need is at an earlier one. -/
structure Reflected (project : Path) (root : List String) (earlier : Need) (s : Session) (later : Need)
    (t : Session) : Prop where
  /-- both are met or none is -/
  met : later.Met project root t ↔ earlier.Met project root s
  /-- both are barred or none is -/
  barred : later.Barred project root t ↔ earlier.Barred project root s

theorem Reflected.refl (n : Need) (s : Session) : Reflected project root n s n s := ⟨.rfl, .rfl⟩

theorem Reflected.trans {n' n'' : Need} {u : Session} (h : Reflected project root n s n' t)
    (h' : Reflected project root n' t n'' u) : Reflected project root n s n'' u :=
  ⟨h'.met.trans h.met, h'.barred.trans h.barred⟩

/-- The files of needs have names that stay below a directory, and none is in the way of another. -/
structure Separate (ns : List Need) : Prop where
  /-- the names stay below -/
  plain : ∀ n ∈ ns, Plain n.names
  /-- no name is in the way of another one -/
  apart : ns.Pairwise fun n m => Independent [n.names] [m.names]

theorem Separate.head (h : Separate (n :: ns)) :
    Plain n.names ∧ ∀ m ∈ ns, Plain m.names ∧ Independent [n.names] [m.names] :=
  ⟨h.plain n (.head _), fun m hm => ⟨h.plain m (.tail _ hm), (List.pairwise_cons.1 h.apart).1 m hm⟩⟩

theorem Separate.tail (h : Separate (n :: ns)) : Separate ns :=
  ⟨fun m hm => h.plain m (.tail _ hm), (List.pairwise_cons.1 h.apart).2⟩

section Map

variable {g : Need → Need} (h : ∀ n ∈ ns, Reflected project root (g n) s n t)
include h

theorem allMet_map : AllMet project root t ns ↔ AllMet project root s (ns.map g) := by
  rw [AllMet, AllMet, List.forall_mem_map]
  exact forall₂_congr fun n hn => (h n hn).met

theorem hindered_map : Hindered project root t ns ↔ Hindered project root s (ns.map g) := by
  induction ns with
  | nil => rfl
  | cons n ns ih =>
    rw [List.map_cons, Hindered, Hindered, (h n (.head _)).met, (h n (.head _)).barred,
      ih fun m hm => h m (.tail _ hm)]

end Map

end Need

open Need

variable {project : Path} {root file : List String} {L : List (List String)} {s t : Session}
  {α β : Type} {x : Run α} {f : α → Run β} {a : α} {n : Need} {ns ms : List Need}

theorem SameFiles.reflected (h : SameFiles s t) (n : Need) : Reflected project root n s n t := by
  obtain ⟨tree, here, log⟩ := s
  obtain ⟨tree', here', log'⟩ := t
  obtain ⟨rfl, rfl⟩ := h
  cases n with
  | text names accepts encodable => exact ⟨.rfl, .rfl⟩
  | place names =>
    have hwritable {log log' : List Event} (h : Disk.Writable project root names ⟨tree', here', log⟩) :
        Disk.Writable project root names ⟨tree', here', log'⟩ := ⟨h.null, h.clear, h.free⟩
    exact ⟨⟨hwritable, hwritable⟩, not_congr ⟨hwritable, hwritable⟩⟩

/-- A run does not look at, and leaves alone, what has to do with a file that is independent of its
own. -/
theorem Run.Confined.reflected (hx : Confined .shipped project L x) (hL : ∀ names ∈ L, Plain names)
    (hs : Grounded project root s) (hrun : x.perform s = (.ok a, t)) (hn : Plain n.names)
    (hind : Independent L [n.names]) : Reflected project root n s n t := by
  have ht := hx.grounded_of_perform hL hs hrun
  have hagree : Agree root [n.names] s t := hind.agree (hx.inStep hL hs hrun)
  cases n with
  | text names accepts encodable =>
    have hbytes (c : ByteArray) : t.tree.readFile? t.here (Feature.below project names) = some c ↔
        s.tree.readFile? s.here (Feature.below project names) = some c := by
      have hplain : Plain names := hn
      have hfile : t.tree.get? (root ++ names) = s.tree.get? (root ++ names) :=
        hagree.file _ (List.mem_map_of_mem (.head _))
      rw [Disk.readFile?_below ht.leads ht.closed hplain,
        Disk.readFile?_below hs.leads hs.closed hplain, hfile]
    constructor
    · simp only [Met, Disk.Reads, hbytes]
    · simp only [Barred, Disk.Reads, hbytes]
  | place names =>
    have hwritable : Disk.Writable project root names t ↔ Disk.Writable project root names s :=
      ⟨fun h => h.of_agree hagree.symm (.head _), fun h => h.of_agree hagree (.head _)⟩
    exact ⟨hwritable, not_congr hwritable⟩

/-- **A run is governed by its needs**: it succeeds exactly if they are all met, and ends in a failure
that the program does not look for exactly if the first one that is not met is barred. -/
structure Governed (project : Path) (root : List String) (ns : List Need) (x : Run α) (s : Session) :
    Prop where
  /-- when it succeeds -/
  success : (x.perform s).1.isOk = true ↔ AllMet project root s ns
  /-- when it ends in a failure that the program does not look for -/
  escape : (∃ e, (x.perform s).1 = .error e ∧ e.isScaffold = false) ↔ Hindered project root s ns

namespace Governed

theorem allMet (h : Governed project root ns x s) (hrun : x.perform s = (.ok a, t)) :
    AllMet project root s ns :=
  h.success.1 (by rw [hrun]; rfl)

/-- A run that succeeds needs nothing. -/
theorem of_ok (h : x.perform s = (.ok a, t)) : Governed project root [] x s where
  success := by
    rw [h]
    exact ⟨fun _ => allMet_nil, fun _ => rfl⟩
  escape := by
    rw [h]
    exact ⟨fun ⟨_, h, _⟩ => (nomatch h), False.elim⟩

/-- A run goes on if its first need is met. -/
theorem of_met (hn : n.Met project root s) (h : Governed project root ns x s) :
    Governed project root (n :: ns) x s where
  success := by
    rw [h.success]
    exact ⟨fun hall => List.forall_mem_cons.2 ⟨hn, hall⟩, fun hall => (List.forall_mem_cons.1 hall).2⟩
  escape := by
    rw [h.escape]
    exact ⟨fun h => .inr ⟨hn, h⟩, fun h => (h.resolve_left fun hbarred => hbarred.not_met hn).2⟩

/-- A run that fails at its first need. -/
theorem of_error {e : Failure} (h : x.perform s = (.error e, t)) (hn : ¬ n.Met project root s)
    (he : e.isScaffold = false ↔ n.Barred project root s) : Governed project root (n :: ns) x s where
  success := by
    rw [h]
    exact ⟨nofun, fun hall => absurd (hall n (.head _)) hn⟩
  escape := by
    rw [h, Hindered, ← he]
    constructor
    · rintro ⟨e', herror, htyped⟩
      cases herror
      exact .inl htyped
    · rintro (htyped | ⟨hmet, -⟩)
      · exact ⟨e, rfl, htyped⟩
      · exact absurd hmet hn

/-- A run is governed like another one that has the same outcome on the same files. -/
theorem congr {y : Run α} (h : Governed project root ns x s)
    (hout : (y.perform t).1 = (x.perform s).1) (hst : SameFiles s t) :
    Governed project root ns y t := by
  have hrefl : ∀ n ∈ ns, Reflected project root (id n) s n t := fun n _ => hst.reflected n
  constructor
  · rw [hout, h.success, allMet_map hrefl, List.map_id]
  · rw [hout, h.escape, hindered_map hrefl, List.map_id]

/-- **Sequences.** The needs of the second run count as they come up after the first one. -/
theorem bind_map {g : Need → Need} (hx : Governed project root ns x s)
    (hf : ∀ a t, x.perform s = (.ok a, t) → Governed project root ms (f a) t)
    (hg : ∀ a t, x.perform s = (.ok a, t) → ∀ n ∈ ms, Reflected project root (g n) s n t) :
    Governed project root (ns ++ ms.map g) (x >>= f) s := by
  rcases hrun : x.perform s with ⟨e | a, t⟩
  · have hnot : ¬ AllMet project root s ns := by
      rw [← hx.success, hrun]
      exact nofun
    constructor
    · rw [perform_bind_of_error hrun, allMet_append]
      exact ⟨nofun, fun h => absurd h.1 hnot⟩
    · rw [perform_bind_of_error hrun, hindered_append, ← hx.escape, hrun]
      simp [hnot]
  · have hall := hx.allMet hrun
    constructor
    · rw [perform_bind_of_ok hrun, (hf a t hrun).success, allMet_map (hg a t hrun), allMet_append]
      exact ⟨fun h => ⟨hall, h⟩, And.right⟩
    · rw [perform_bind_of_ok hrun, (hf a t hrun).escape, hindered_map (hg a t hrun), hindered_append]
      exact ⟨fun h => .inr ⟨hall, h⟩, fun h => (h.resolve_left (not_hindered_of_allMet hall)).2⟩

/-- Where the first run changes nothing, the second one finds what the first one found. -/
theorem bind_quiet (hx : Governed project root ns x s) (hquiet : Quiet x)
    (hf : ∀ a, x.perform s = (.ok a, s) → Governed project root ms (f a) s) :
    Governed project root (ns ++ ms) (x >>= f) s := by
  have hsecond (a : α) (t : Session) (hrun : x.perform s = (.ok a, t)) :
      Governed project root ms (f a) t := by
    obtain rfl := hquiet.eq_of_perform hrun
    exact hf a hrun
  have hsame (a : α) (t : Session) (hrun : x.perform s = (.ok a, t)) :
      ∀ n ∈ ms, Reflected project root (id n) s n t := by
    rw [hquiet.eq_of_perform hrun]
    exact fun n _ => .refl n s
  have h := hx.bind_map hsecond hsame
  rwa [List.map_id] at h

/-- Where the first run is confined to other files, the needs of the second one are as they were. -/
theorem bind (hx : Governed project root ns x s) (hconf : Confined .shipped project L x)
    (hL : ∀ names ∈ L, Plain names) (hs : Grounded project root s)
    (hms : ∀ n ∈ ms, Plain n.names ∧ Independent L [n.names])
    (hf : ∀ a t, x.perform s = (.ok a, t) → Grounded project root t →
      Governed project root ms (f a) t) : Governed project root (ns ++ ms) (x >>= f) s := by
  have h := hx.bind_map (g := id)
    (fun a t hrun => hf a t hrun (hconf.grounded_of_perform hL hs hrun))
    fun a t hrun n hn => hconf.reflected hL hs hrun (hms n hn).1 (hms n hn).2
  rwa [List.map_id] at h

/-- What follows a run and cannot fail needs nothing. -/
theorem bind_ok (hx : Governed project root ns x s)
    (hf : ∀ a t, x.perform s = (.ok a, t) → ∃ b u, (f a).perform t = (.ok b, u)) :
    Governed project root ns (x >>= f) s := by
  have hsecond (a : α) (t : Session) (hrun : x.perform s = (.ok a, t)) :
      Governed project root [] (f a) t := by
    obtain ⟨b, u, hb⟩ := hf a t hrun
    exact of_ok hb
  have h := hx.bind_map (g := id) hsecond nofun
  rwa [List.map_nil, List.append_nil] at h

end Governed

/-! ## Reading and writing -/

namespace Disk

/-- **A write needs its place.** -/
theorem governed_write (hs : Grounded project root s) (hplain : Plain file) (text : String) :
    Governed project root [.place file] (write (below project file) text) s := by
  rcases hrun : (write (below project file) text).perform s with ⟨e | _, t⟩
  · have hnot : ¬ Writable project root file s := by
      intro h
      obtain ⟨t', hok⟩ := h.exists_perform_write hs.leads hplain text
      cases hok.symm.trans hrun
    obtain ⟨problem, q, rfl⟩ := (failsWith_write _ text).of_perform hrun
    exact .of_error hrun hnot (iff_of_true rfl hnot)
  · exact .of_met (wrote_of_write hs.leads hplain hrun).1 (.of_ok hrun)

/-- A file that is read can be written. -/
theorem Reads.writable {content : String} (h : Reads (below project file) content s)
    (hs : Grounded project root s) (hplain : Plain file)
    (hnull : (below project file).holdsNull = false) : Writable project root file s := by
  obtain ⟨c, hc, -⟩ := h
  obtain ⟨t, hwrite⟩ := exists_perform_write (parts_below_ne_nil hplain) hnull hc content
  exact (wrote_of_write hs.leads hplain hwrite).1

theorem perform_require_missing {p : Path} (feature : Option String)
    (hbytes : s.tree.readFile? s.here p = none) :
    (require p feature).perform s = (.error (.noSeedFile p feature), s) := by
  rw [require, perform_bind_of_ok (perform_bytes? p s), hbytes]
  rfl

theorem perform_require_garbled {p : Path} {c : ByteArray} {e : Failure} (feature : Option String)
    (hbytes : s.tree.readFile? s.here p = some c) (htext : textOf c = .error e) :
    (require p feature).perform s = (.error e, s) := by
  rw [require, perform_bind_of_ok (perform_bytes? p s), hbytes]
  simp only [htext]
  rfl

/-- A run on a text that can be read refuses the text, cannot encode what it makes of it, or may need
more. -/
theorem Reads.governed {accepts encodable : String → Bool} {content : String}
    (hreads : Reads (below project file) content s)
    (hrefused : accepts content = false → ∃ e t, x.perform s = (.error e, t) ∧ e.isScaffold = true)
    (hbarred : accepts content = true → encodable content = false →
      ∃ e t, x.perform s = (.error e, t) ∧ e.isScaffold = false)
    (haccepted : accepts content = true → encodable content = true →
      Governed project root ms x s) :
    Governed project root (.text file accepts encodable :: ms) x s := by
  cases haccepts : accepts content with
  | false =>
    obtain ⟨e, t, herror, htyped⟩ := hrefused haccepts
    refine .of_error herror ?_ (iff_of_false (by simp [htyped]) ?_)
    · rw [hreads.met_iff, haccepts]
      exact fun h => Bool.false_ne_true h.1
    · rw [hreads.barred_iff, haccepts]
      exact fun h => Bool.false_ne_true h.1
  | true =>
    cases hencodable : encodable content with
    | false =>
      obtain ⟨e, t, herror, htyped⟩ := hbarred haccepts hencodable
      have hlone : (Need.text file accepts encodable).Barred project root s :=
        .inr ⟨content, hreads, haccepts, hencodable⟩
      exact .of_error herror hlone.not_met (iff_of_true htyped hlone)
    | true =>
      exact .of_met ⟨content, hreads, haccepts, hencodable⟩ (haccepted haccepts hencodable)

/-- **A text that is read is needed,** and what is done with it goes by the text. -/
theorem governed_require {accepts encodable : String → Bool} {k : String → Run β}
    (feature : Option String)
    (hrefused : ∀ content, Reads (below project file) content s → accepts content = false →
      ∃ e t, (k content).perform s = (.error e, t) ∧ e.isScaffold = true)
    (hbarred : ∀ content, Reads (below project file) content s → accepts content = true →
      encodable content = false →
        ∃ e t, (k content).perform s = (.error e, t) ∧ e.isScaffold = false)
    (haccepted : ∀ content, Reads (below project file) content s → accepts content = true →
      encodable content = true → Governed project root ms (k content) s) :
    Governed project root (.text file accepts encodable :: ms)
      (require (below project file) feature >>= k) s := by
  -- no file, no text, or a text to go by
  cases hbytes : s.tree.readFile? s.here (below project file) with
  | none =>
    have hrun := perform_require_missing feature hbytes
    refine .of_error (perform_bind_of_error hrun) ?_ (iff_of_false Bool.false_ne_true.symm ?_)
    · rintro ⟨content, ⟨c, hc, -⟩, -⟩
      cases hbytes.symm.trans hc
    · rintro (⟨c, f, hc, -⟩ | ⟨content, ⟨c, hc, -⟩, -⟩) <;> cases hbytes.symm.trans hc
  | some c =>
    cases htext : textOf c with
    | error f =>
      have hgarbled : (Need.text file accepts encodable).Barred project root s :=
        .inl ⟨c, f, hbytes, htext⟩
      have hrun := perform_require_garbled feature hbytes htext
      obtain ⟨fault, rfl⟩ := textOf_error htext
      exact .of_error (perform_bind_of_error hrun) hgarbled.not_met (iff_of_true rfl hgarbled)
    | ok content =>
      have hreads : Reads (below project file) content s := ⟨c, hbytes, htext⟩
      have hrun : (require (below project file) feature >>= k).perform s = (k content).perform s :=
        perform_bind_of_ok (perform_require_ok.2 ⟨rfl, c, hbytes, htext⟩)
      refine hreads.governed ?_ ?_ fun haccepts hencodable => ?_
      · rw [hrun]
        exact hrefused content hreads
      · rw [hrun]
        exact hbarred content hreads
      · refine (haccepted content hreads haccepts hencodable).congr ?_ (SameFiles.refl s)
        rw [hrun]

/-- The same where nothing is made of the text that could not be encoded. -/
theorem governed_accept {accepts : String → Bool} {k : String → Run β} (feature : Option String)
    (hrefused : ∀ content, Reads (below project file) content s → accepts content = false →
      ∃ e t, (k content).perform s = (.error e, t) ∧ e.isScaffold = true)
    (haccepted : ∀ content, Reads (below project file) content s → accepts content = true →
      Governed project root ms (k content) s) :
    Governed project root (.text file accepts :: ms)
      (require (below project file) feature >>= k) s :=
  governed_require feature hrefused (fun _ _ _ h => by cases h)
    fun content hreads haccepts _ => haccepted content hreads haccepts

/-- A text that is read and parsed is needed to be parsed, if the program looks for its faults. -/
theorem governed_parse {ε γ : Type} {parse : String → Except ε γ} {g : ε → Failure}
    {k : String → γ → Run β} (feature : Option String) (htyped : ∀ fault, (g fault).isScaffold = true)
    (hk : ∀ content value, Reads (below project file) content s → parse content = .ok value →
      Governed project root ms (k content value) s) :
    Governed project root (.text file (fun content => (parse content).isOk) :: ms)
      (require (below project file) feature >>= fun content => orFail g (parse content) >>= k content)
      s := by
  refine governed_accept _ (fun content _ hrefused => ?_) fun content hreads haccepted => ?_
  · obtain ⟨fault, hparse⟩ := isOk_eq_false_iff.1 hrefused
    rw [hparse]
    exact ⟨g fault, s, rfl, htyped fault⟩
  · obtain ⟨value, hparse⟩ := isOk_eq_true_iff.1 haccepted
    refine (hk content value hreads hparse).congr ?_ (SameFiles.refl s)
    rw [hparse, perform_bind_of_ok (perform_orFail_ok _ _ _)]

/-! ## One after another -/

section Then

variable {y : Run α} (hsep : Separate (.place file :: ms)) (hs : Grounded project root s)
include hsep hs

/-- A text is written, and what follows has needs of its own. -/
theorem governed_write_then (text : String)
    (hy : ∀ t, Grounded project root t → Governed project root ms y t) :
    Governed project root (.place file :: ms) (write (below project file) text >>= fun _ => y) s := by
  obtain ⟨hplain, hms⟩ := hsep.head
  exact (governed_write hs hplain text).bind (.write (List.mem_singleton_self _) text)
    (List.forall_mem_singleton.2 hplain) hs hms fun _ t _ ht => hy t ht

/-- A template that comes with the program is emitted, and what follows has needs of its own. -/
theorem governed_emit_then {name : String} (ctx : Template.Context)
    (hname : name ∈ Template.Shipped.files.map Prod.fst)
    (hy : ∀ t, Grounded project root t → Governed project root ms y t) :
    Governed project root (.place file :: ms)
      (Template.Source.shipped.emit name (below project file) ctx >>= fun _ => y) s := by
  obtain ⟨text, hrender⟩ := Template.exists_render_shipped ctx hname
  refine (governed_write_then hsep hs text hy).congr ?_ (SameFiles.refl s)
  rw [Template.Source.emit, bind_assoc, perform_bind_of_ok (hrender s)]

end Then

end Disk

end Scaffold
