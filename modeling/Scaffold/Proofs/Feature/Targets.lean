import Scaffold.Feature.Builtin
import Scaffold.Proofs.Disk.Confined

/-!
# The files of a feature

Each feature that comes with the program touches only the files that belong to it. `targets` lists
them by their names below the project's directory. That a feature is confined to these names
(`confined_install`) is the only thing that has to be known about it to tell what it leaves alone.
-/

namespace Scaffold

open Run

namespace Feature

/-- The names of the build configuration. -/
def buildConfigNames (typescript : Bool) : List String :=
  [if typescript then "vite.config.ts" else "vite.config.js"]

variable {L : List (List String)} {names : List String}

theorem suffix_below (project : Path) (names : List String) :
    names <:+ (below project names).parts :=
  List.suffix_append _ _

theorem quiet_patched {α : Type} (path : Path) (r : Except Text.AnchorFault α) :
    Quiet (patched path r) :=
  Quiet.orFail _ r

/-! ## Patches -/

theorem confined_patchAppView (src : Template.Source) (project : Path) (hmem : names ∈ L) :
    Confined src project L (patchAppView (below project names)) := by
  refine (Confined.require hmem _).bind fun content => Confined.ite (.report _) ?_
  refine (Confined.patched _ _).bind fun text => ?_
  exact (Confined.write hmem text).bind fun _ => .report _

theorem confined_patchCheckedFiles (src : Template.Source) (project : Path) (hmem : names ∈ L)
    (name : String) : Confined src project L (patchCheckedFiles (below project names) name) := by
  refine (Confined.requireJson hmem _).bind fun document => ?_
  refine (Confined.orFail _ _).bind fun changed? => ?_
  cases changed? with
  | none => exact .pure _
  | some changed => exact (Confined.writeString hmem _).bind fun _ => .report _

theorem confined_patchTransformer (src : Template.Source) (project : Path) (hmem : names ∈ L) :
    Confined src project L (patchTransformer (below project names)) := by
  refine (Confined.require hmem _).bind fun content => ?_
  refine (Confined.patched _ _).bind fun text => ?_
  exact (Confined.write hmem text).bind fun _ => .report _

end Feature

namespace Builtin

open Feature

variable {L : List (List String)}

/-- The names of the files that a feature may write, below the project's directory; `transformed`
tells whether the styling feature configures the build. -/
def fileNames (typescript transformed : Bool) : Builtin → List (List String)
  | .routing =>
    [["src", "router", s!"index.{extension}"], ["src", "views", "Home.vue"], ["src", "App.vue"]]
  | .storage =>
    [["src", "store", s!"index.{extension}"], ["src", "store", s!"counter.{extension}"]]
  | .linting =>
    [s!"eslint.config.{extension}"] :: if typescript then [[checkedFilesName]] else []
  | .utilityClasses => [[s!"uno.config.{extension}"], buildConfigNames typescript]
  | .styling => if transformed then [buildConfigNames typescript] else []
  | .commitChecks =>
    [["commitlint.config.js"], [".husky", "pre-commit"], [".husky", "commit-msg"]]
where
  /-- the extension of script files -/
  extension : String := if typescript then "ts" else "js"

/-- The names of the templates of a feature. -/
def templateNames (typescript : Bool) : Builtin → List String
  | .routing => [s!"router/router.{extension}.tpl", "router/Home.vue.tpl"]
  | .storage => [s!"store/index.{extension}.tpl", s!"store/counter.{extension}.tpl"]
  | .linting => ["eslint/eslint.config.js.tpl"]
  | .utilityClasses => ["unocss/uno.config.js.tpl"]
  | .styling => []
  | .commitChecks => ["git/commitlint.config.js.tpl"]
where
  /-- the extension of script files -/
  extension : String := if typescript then "ts" else "js"

theorem mem_all (b : Builtin) : b ∈ all := by
  cases b <;> decide

/-- The templates of a feature come with the program. -/
theorem templateNames_subset : ∀ typescript, ∀ b ∈ all,
    b.templateNames typescript ⊆ Template.Shipped.files.map Prod.fst := by
  decide

theorem relative_templateNames {typescript : Bool} {b : Builtin} {name : String}
    (h : name ∈ b.templateNames typescript) :
    (Path.ofString name).anchor = .here ∧ Plain (Path.ofString name).parts :=
  Template.relative_shipped name (templateNames_subset typescript b (mem_all b) h)

/-- The names of the files that a feature may write for the given options. -/
def targets (o : Options) (b : Builtin) : List (List String) :=
  b.fileNames o.typescript (o.css == .lightningcss)

theorem plain_of_mem_fileNames (typescript transformed : Bool) (b : Builtin) :
    ∀ names ∈ b.fileNames typescript transformed, Plain names := by
  cases typescript <;> cases transformed <;> cases b <;> decide

theorem plain_of_mem_targets {b : Builtin} {o : Options} {names : List String}
    (h : names ∈ b.targets o) : Plain names :=
  plain_of_mem_fileNames _ _ b names h

/-- The last step of the styling feature: it asks for the packages of the strategy. -/
def askForStyle (o : Options) : Run Effects :=
  match stylePackages? o.css with
  | none => failWith .noStrategy
  | some packages => pure { devDependencies := packages }

theorem askForStyle_none {o : Options} (h : stylePackages? o.css = none) :
    askForStyle o = failWith .noStrategy := by
  rw [askForStyle, h]

theorem askForStyle_some {o : Options} {packages : List String}
    (h : stylePackages? o.css = some packages) :
    askForStyle o = pure { devDependencies := packages } := by
  rw [askForStyle, h]

theorem confined_askForStyle (src : Template.Source) (project : Path) (o : Options) :
    Confined src project L (askForStyle o) := by
  cases h : stylePackages? o.css with
  | none =>
    rw [askForStyle_none h]
    exact .failWith _
  | some packages =>
    rw [askForStyle_some h]
    exact .pure _

/-- **A feature reads and writes its own files only.** -/
theorem confined_install (src : Template.Source) (b : Builtin) (project : Path) (o : Options) :
    Confined src project (b.targets o) ((b.provider src).install project o) := by
  have hname (name) (h : name ∈ b.templateNames o.typescript) : (Path.ofString name).anchor = .here :=
    (relative_templateNames h).1
  cases b with
  | routing =>
    refine (Confined.emit (hname _ (.head _)) (.head _) _).bind fun _ => ?_
    refine (Confined.emit (hname _ (.tail _ (.head _))) (.tail _ (.head _)) _).bind fun _ => ?_
    exact (confined_patchAppView src project (.tail _ (.tail _ (.head _)))).bind fun _ => .pure _
  | storage =>
    refine (Confined.emit (hname _ (.head _)) (.head _) _).bind fun _ => ?_
    refine (Confined.emit (hname _ (.tail _ (.head _))) (.tail _ (.head _)) _).bind fun _ => ?_
    exact .pure _
  | linting =>
    refine (Confined.emit (hname _ (.head _)) (.head _) _).bind fun _ => ?_
    change Confined _ _ _ (if o.typescript then _ else _)
    split
    · exact (confined_patchCheckedFiles src project (.tail _ (.head _)) _).bind fun _ => .pure _
    · exact .pure _
  | utilityClasses =>
    refine (Confined.emit (hname _ (.head _)) (.head _) _).bind fun _ => ?_
    refine (Confined.require (.tail _ (.head _)) _).bind fun content => ?_
    refine (Confined.patched _ _).bind fun text => ?_
    exact (Confined.write (.tail _ (.head _)) text).bind fun _ => .pure _
  | styling =>
    change Confined _ _ _ (if o.css == .lightningcss then _ else _)
    split
    · rename_i htransformed
      refine (confined_patchTransformer src project ?_).bind fun _ =>
        confined_askForStyle src project o
      simp [targets, fileNames, buildConfigNames, htransformed]
    · exact confined_askForStyle src project o
  | commitChecks =>
    refine (Confined.emit (hname _ (.head _)) (.head _) _).bind fun _ => ?_
    refine (Confined.write (.tail _ (.head _)) _).bind fun _ => ?_
    exact (Confined.write (.tail _ (.tail _ (.head _))) _).bind fun _ => .pure _

/-- **A feature touches its own files only.** -/
theorem within_install (src : Template.Source) (b : Builtin) (project : Path) (o : Options) :
    Within (b.targets o) ((b.provider src).install project o) :=
  (b.confined_install src project o).within fun _ => plain_of_mem_targets

/-- The names of the files that the features may write for the given options. -/
def allTargets (o : Options) : List (List String) := all.flatMap (targets o)

theorem within_builtinProviders (src : Template.Source) (project : Path) (o : Options) :
    ∀ p ∈ builtinProviders src, Within (allTargets o) (p.install project o) := by
  intro p hp
  obtain ⟨b, hb, rfl⟩ := List.mem_map.1 hp
  exact (b.within_install src project o).mono fun names hmem =>
    List.mem_flatMap.2 ⟨b, hb, hmem⟩

end Builtin

end Scaffold
