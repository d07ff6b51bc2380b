import Scaffold.Template.Source
import Scaffold.Proofs.Disk.Texts

/-!
# Emitting templates

A rendered template depends on the bytes of the template alone, and those are never among the files
that a project receives. So a template that was emitted once renders to the same text again, and
finds this text in its target.
-/

namespace Scaffold.Template

open Run

variable {L : List (List String)} {s t : Session} {src : Source} {name text : String}
  {target : Path} {ctx : Context} {names : List String}

/-- The names at the end of a stored template's path. -/
theorem suffix_path (src : Source) (name : String) :
    (Path.ofString name).parts <:+ (src.path name).parts := by
  have hjoin (dir : Path) : (Path.ofString name).parts <:+ (dir / Path.ofString name).parts := by
    change _ <:+ (Path.join dir (Path.ofString name)).parts
    unfold Path.join
    split
    · exact List.suffix_append _ _
    · exact List.suffix_refl _
  cases src with
  | shipped => exact hjoin _
  | folder dir => exact hjoin _

/-- The bytes of a stored template come with the program or from the files. -/
theorem bytes?_eq (src : Source) (name : String) :
    (∃ c, src.bytes? name = pure c) ∨ src.bytes? name = Disk.bytes? (src.path name) := by
  unfold Source.bytes?
  split
  · exact .inl ⟨_, rfl⟩
  · exact .inr rfl

theorem quiet_bytes? (src : Source) (name : String) : Quiet (src.bytes? name) := by
  rcases bytes?_eq src name with ⟨c, h⟩ | h
  · rw [h]
    exact Quiet.pure c
  · rw [h]
    exact Disk.quiet_bytes? _

theorem quiet_renderBytes (path : Path) (bytes : Option ByteArray) (ctx : Context) :
    Quiet (renderBytes path bytes ctx) := by
  cases bytes with
  | none => exact Quiet.failWith _
  | some bytes => exact (Quiet.orFail _ _).bind fun _ => Quiet.pure _

theorem perform_renderBytes (path : Path) (bytes : Option ByteArray) (ctx : Context)
    (s t : Session) :
    ((renderBytes path bytes ctx).perform t).1 = ((renderBytes path bytes ctx).perform s).1 := by
  cases bytes with
  | none => rfl
  | some c =>
    change ((orFail id (Disk.textOf c) >>= fun x => pure (render ctx x) : Run String).perform t).1 =
      ((orFail id (Disk.textOf c) >>= fun x => pure (render ctx x) : Run String).perform s).1
    cases Disk.textOf c <;> rfl

theorem quiet_render (src : Source) (name : String) (ctx : Context) :
    Quiet (src.render name ctx) :=
  (quiet_bytes? src name).bind fun _ => quiet_renderBytes _ _ _

set_option maxRecDepth 100000 in
/-- No template that comes with the program is hidden by another one. -/
theorem readFile?_shipped : ∀ e ∈ Shipped.files,
    Shipped.tree.readFile? [] (Source.shipped.path e.1) = some e.2.toUTF8 := by
  simp only [Shipped.files, List.forall_mem_cons]
  exact ⟨rfl, rfl, rfl, rfl, rfl, rfl, rfl, rfl, rfl, rfl, rfl, rfl, rfl, rfl, rfl, nofun⟩

/-- The names of the templates that come with the program lead further down from where they are. -/
theorem relative_shipped : ∀ name ∈ Shipped.files.map Prod.fst,
    (Path.ofString name).anchor = .here ∧ Plain (Path.ofString name).parts := by
  decide +kernel

/-- **A template that comes with the program is rendered** in every session. -/
theorem exists_render_shipped (ctx : Context) (hname : name ∈ Shipped.files.map Prod.fst) :
    ∃ out, ∀ s, (Source.shipped.render name ctx).perform s = (.ok out, s) := by
  obtain ⟨e, he, rfl⟩ := List.mem_map.1 hname
  obtain ⟨out, hout⟩ : ∃ out, Disk.textOf e.2.toUTF8 = .ok out := by
    rw [Disk.textOf, Text.decode_toUTF8]
    exact ⟨_, rfl⟩
  have hbytes : Source.shipped.bytes? e.1 = pure (some e.2.toUTF8) := by
    rw [← readFile?_shipped e he]
    unfold Source.bytes?
    rw [(relative_shipped e.1 hname).1]
  refine ⟨render ctx out, fun s => ?_⟩
  rw [Source.render, hbytes, perform_bind_of_ok (perform_pure _ _), renderBytes, hout]
  rfl

/-- A template that comes with the program is rendered alike in all sessions. -/
theorem perform_render_shipped (hname : (Path.ofString name).anchor = .here) (ctx : Context)
    (s t : Session) :
    ((Source.shipped.render name ctx).perform t).1 =
      ((Source.shipped.render name ctx).perform s).1 := by
  have hbytes : Source.shipped.bytes? name =
      pure (Shipped.tree.readFile? [] (Source.shipped.path name)) := by
    unfold Source.bytes?
    rw [hname]
  rw [Source.render, hbytes, perform_bind_of_ok (perform_pure _ _),
    perform_bind_of_ok (perform_pure _ _)]
  exact perform_renderBytes _ _ _ s t

/-- A template apart from the list is rendered as before. -/
theorem stays_render_of_frame (hframe : Frame L s t) (hplain : Plain (Path.ofString name).parts)
    (hapart : Apart L (Path.ofString name).parts) (h : Stays (src.render name ctx) text s) :
    Stays (src.render name ctx) text t := by
  refine (quiet_render src name ctx).stays ?_
  have hs := h.outcome
  rw [Source.render] at hs ⊢
  rcases bytes?_eq src name with ⟨c, hbytes⟩ | hbytes
  · rw [hbytes, perform_bind_of_ok (perform_pure _ _)] at hs ⊢
    rw [perform_renderBytes _ _ _ s t, hs]
  · rw [hbytes, perform_bind_of_ok (Disk.perform_bytes? _ _)] at hs ⊢
    cases hc : s.tree.readFile? s.here (src.path name) with
    | none =>
      rw [hc] at hs
      cases hs
    | some c =>
      rw [hc] at hs
      rw [readFile?_of_frame hframe hplain (suffix_path src name) hapart hc,
        perform_renderBytes _ _ _ s t, hs]

/-- The target holds what the template renders to. -/
def Emitted (src : Source) (name : String) (target : Path) (ctx : Context) (s : Session) : Prop :=
  ∃ text, Stays (src.render name ctx) text s ∧ Disk.Holds target text s

theorem within_emit (hplain : Plain names) (htarget : names <:+ target.parts) (hmem : names ∈ L) :
    Within L (src.emit name target ctx) :=
  (quiet_render src name ctx).within.bind fun text => Disk.within_write hplain htarget hmem text

/-- A template is a text, and so is what is rendered from it. -/
theorem encodes_emit (src : Source) (name : String) (target : Path) (ctx : Context) :
    Disk.Encodes (src.emit name target ctx) := by
  refine .bind (.bind ?_ fun bytes => ?_) fun text => Disk.encodes_write target text
  · rcases bytes?_eq src name with ⟨c, h⟩ | h <;> rw [h]
    · exact .pure c
    · exact Disk.encodes_bytes? _
  · cases bytes with
    | none => exact .failWith fun _ => nofun
    | some c => exact (Disk.encodes_textOf c).bind fun _ => .pure _

/-- **An emitted template is in its target.** -/
theorem emitted_of_emit (hplain : Plain names) (htarget : names <:+ target.parts)
    (hname : Plain (Path.ofString name).parts) (hapart : Apart [names] (Path.ofString name).parts)
    (h : (src.emit name target ctx).perform s = (.ok (), t)) : Emitted src name target ctx t := by
  rw [Source.emit, perform_bind_ok] at h
  obtain ⟨text, u, hrender, hwrite⟩ := h
  have hquiet := quiet_render src name ctx
  obtain rfl := hquiet.eq_of_perform hrender
  have hframe := (Disk.within_write (L := [names]) hplain htarget (by simp) text).frame_of_perform
    hwrite
  have hparts : target.parts ≠ [] := by
    intro hnil
    rw [hnil, List.suffix_nil] at htarget
    exact hplain.1 htarget
  refine ⟨text, ?_, Disk.holds_of_write hparts hwrite⟩
  exact stays_render_of_frame hframe hname hapart (hquiet.stays (by rw [hrender]))

theorem Emitted.of_frame (h : Emitted src name target ctx s) (hframe : Frame L s t)
    (hplain : Plain names) (htarget : names <:+ target.parts) (hapart : Apart L names)
    (hname : Plain (Path.ofString name).parts) (hnapart : Apart L (Path.ofString name).parts) :
    Emitted src name target ctx t := by
  obtain ⟨text, hrender, hholds⟩ := h
  exact ⟨text, stays_render_of_frame hframe hname hnapart hrender,
    hholds.of_frame hframe hplain htarget hapart⟩

theorem Emitted.stays (h : Emitted src name target ctx s) : Stays (src.emit name target ctx) () s := by
  obtain ⟨text, hrender, hholds⟩ := h
  exact hrender.bind fun u hu => (hholds.congr hu).stays

end Scaffold.Template
