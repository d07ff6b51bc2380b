import Scaffold.Proofs.Feature.Targets
import Scaffold.Proofs.Composition.Steps
import Scaffold.Proofs.Effects.Ledger
import Scaffold.Proofs.Entry.Rewrite
import Scaffold.Proofs.Json.Parsed

/-!
# Harmless effects

The effects of the features that come with the program, and what is merged from them, can be put into
the shared files without making them unreadable for the next run: the statements construct no
application, and the settings of tools are sound values.
-/

namespace Scaffold

open Run

/-- Effects that leave the shared files readable. -/
structure Effects.Harmless (e : Effects) : Prop where
  /-- the statements construct no application -/
  statements : HarmlessStatements e.imports e.useCalls
  /-- the settings are sound -/
  config : ∀ setting ∈ e.packageConfig, setting.2.Sound

/-- A ledger of harmless effects. -/
structure Ledger.Harmless (a : Ledger) : Prop where
  /-- the statements construct no application -/
  statements : HarmlessStatements a.imports a.useCalls
  /-- the settings are sound -/
  config : ∀ setting ∈ a.packageConfig.values, setting.2.Sound

variable {a b : Ledger} {project : Path} {o : Options}

theorem harmless_nothing : HarmlessStatements [] [] := ⟨nofun, nofun, nofun, nofun, nofun⟩

/-- Effects without settings are as harmless as their statements, which are fixed texts. -/
theorem Effects.Harmless.of_statements {e : Effects} (hconfig : e.packageConfig = [])
    (h : HarmlessStatements e.imports e.useCalls) : e.Harmless :=
  ⟨h, by rw [hconfig]; exact nofun⟩

/-- **The features that come with the program ask for harmless effects.** -/
theorem Builtin.yields_harmless (src : Template.Source) (b : Builtin) (project : Path)
    (o : Options) : Yields Effects.Harmless ((b.provider src).install project o) := by
  cases b with
  | routing =>
    refine Yields.of_last fun _ => Yields.of_last fun _ => Yields.of_last fun _ => Yields.pure ?_
    exact .of_statements rfl ⟨by decide, by decide, by decide, by decide, by decide⟩
  | storage =>
    refine Yields.of_last fun _ => Yields.of_last fun _ => Yields.pure ?_
    exact .of_statements rfl ⟨by decide, by decide, by decide, by decide, by decide⟩
  | linting =>
    refine Yields.of_last fun _ => ?_
    change Yields _ (if o.typescript then _ else _)
    split
    · exact Yields.of_last fun _ => Yields.pure (.of_statements rfl harmless_nothing)
    · exact Yields.pure (.of_statements rfl harmless_nothing)
  | utilityClasses =>
    refine Yields.of_last fun _ => Yields.of_last fun _ => Yields.of_last fun _ =>
      Yields.of_last fun _ => Yields.pure ?_
    exact .of_statements rfl ⟨by decide, by decide, by decide, by decide, by decide⟩
  | styling =>
    have hend : Yields Effects.Harmless (askForStyle o) := by
      cases h : Feature.stylePackages? o.css with
      | none =>
        rw [askForStyle_none h]
        exact Yields.failWith _
      | some packages =>
        rw [askForStyle_some h]
        exact Yields.pure (.of_statements rfl harmless_nothing)
    change Yields _ (if o.css == .lightningcss then _ else _)
    split
    · exact Yields.of_last fun _ => hend
    · exact hend
  | commitChecks =>
    refine Yields.of_last fun _ => Yields.of_last fun _ => Yields.of_last fun _ => Yields.pure ?_
    refine ⟨harmless_nothing, fun setting hsetting => ?_⟩
    obtain rfl := List.mem_singleton.1 hsetting
    exact Json.sound_obj.2 ⟨by decide, fun e he => by
      obtain rfl := List.mem_singleton.1 he
      trivial⟩

theorem Ledger.Harmless.record {feature : String} {e : Effects} {events : List Event}
    (ha : a.Harmless) (he : e.Harmless) (h : a.record feature e = (b, .ok events)) :
    b.Harmless := by
  obtain ⟨himports, huseCalls, hconfig⟩ := record_ok h
  refine ⟨?_, fun setting hsetting => ?_⟩
  · rw [himports, huseCalls]
    exact ha.statements.append he.statements
  · rcases hconfig setting hsetting with hold | hnew
    · exact ha.config setting hold
    · exact he.config _ hnew

theorem yields_recordEffects {feature : String} {e : Effects} (ha : a.Harmless) (he : e.Harmless) :
    Yields Ledger.Harmless (recordEffects a feature e) := by
  unfold recordEffects
  rcases h : a.record feature e with ⟨b, _ | events⟩
  · exact Yields.failWith _
  · exact Yields.of_last fun _ => Yields.pure (ha.record he h)

theorem yields_composeStep {p : Provider} (hp : Yields Effects.Harmless (p.install project o))
    (ha : a.Harmless) : Yields Ledger.Harmless (composeStep project o a p) := by
  unfold composeStep
  split
  · exact Yields.of_last fun _ => hp.bind fun _ he => yields_recordEffects ha he
  · exact Yields.of_last fun _ => Yields.pure ha

theorem Ledger.Harmless.total (ha : a.Harmless) : a.total.toEffects.Harmless :=
  ⟨ha.statements, ha.config⟩

/-- **What is merged from harmless effects is harmless.** -/
theorem yields_compose {providers : List Provider}
    (hproviders : ∀ p ∈ providers, Yields Effects.Harmless (p.install project o)) :
    Yields (fun effects => effects.toEffects.Harmless) (compose project o providers) := by
  unfold compose
  split
  · refine Yields.bind ?_ fun a ha => Yields.of_last fun _ => Yields.pure (Ledger.Harmless.total ha)
    exact Yields.foldlM _ (fun a ha p hp => yields_composeStep (hproviders p hp) ha)
      ⟨harmless_nothing, nofun⟩
  · exact Yields.failWith _

theorem harmless_builtinProviders (src : Template.Source) :
    ∀ p ∈ builtinProviders src, Yields Effects.Harmless (p.install project o) := by
  intro p hp
  obtain ⟨b, -, rfl⟩ := List.mem_map.1 hp
  exact b.yields_harmless src project o

end Scaffold
