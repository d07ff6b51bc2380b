import Scaffold.Composition
import Scaffold.Description
import Scaffold.EditorFiles
import Scaffold.Entry
import Scaffold.Feature.Builtin
import Scaffold.Manifest.File
import Scaffold.Manifest.Update

/-!
# Generating a project

A run turns a seed project into one with the selected features.

* **Reading first.** The manifest and the entry file are read and checked before any feature is set
  up.
* **Writing last.** Both are rewritten in memory from what was read then, and written only after all
  features have been set up: the manifest first, then the entry file.
* **Then the rest.** The editor files and the description follow.
* **What is left out.** The path of the project is taken as it stands: a tilde at its beginning is not
  expanded to a home directory. Of the file system, `Scaffold.Disk` says what is left out.
-/

namespace Scaffold

/-- How a run is carried out. -/
structure Plan where
  /-- where the templates come from -/
  templates : Template.Source := .shipped
  /-- the providers of the features, in order -/
  providers : List Provider := builtinProviders .shipped
  /-- the names used in the entry file -/
  names : EntryNames := {}
  /-- the version marker for new packages -/
  version : String := Manifest.latest

/-- What a run achieved. -/
structure Outcome where
  /-- the directory of the project -/
  project : Path
  /-- the merged effects of its features -/
  effects : MergedEffects
  /-- the new manifest -/
  manifest : Manifest
  /-- the entry file -/
  entry : Path

/-- What a run reads from the seed project before any feature is set up. -/
structure Seed where
  /-- the manifest -/
  manifest : Manifest
  /-- the content of the entry file, which has exactly one mount expression -/
  entry : String

namespace Assembly

/-- The path of a project's manifest. -/
def manifestPath (project : Path) : Path := Feature.below project [Manifest.fileName]

/-- The path of a project's entry file. -/
def entryAt (project : Path) (o : Options) : Path := Feature.entryAt project o.typescript

/-- Reads and checks the seed project. -/
def readSeed (plan : Plan) (project : Path) (o : Options) : Run Seed := do
  let manifest ← Manifest.ofFile (manifestPath project)
  let entry ← Disk.require (entryAt project o) none
  let _ ← Feature.patched (entryAt project o) (SplitEntry.ofText plan.names.factory entry)
  return { manifest, entry }

/-- The effects as they go into the manifest: a project driven with pnpm depends on it. -/
def manifestEffects (o : Options) (e : Effects) : Effects :=
  if o.packageManager == .pnpm && !e.devDependencies.contains "pnpm" then
    { e with devDependencies := e.devDependencies ++ ["pnpm"] }
  else e

/-- Writes the manifest and the entry file, rewritten for the effects. -/
def writeShared (plan : Plan) (project : Path) (o : Options) (seed : Seed) (e : Effects) :
    Run Manifest := do
  let entry ← Feature.patched (entryAt project o)
    (rewriteEntry plan.names seed.entry e.imports e.useCalls)
  let manifest := seed.manifest.withEffects plan.version (manifestEffects o e)
  Disk.writeString (manifestPath project) manifest.toText
  Disk.write (entryAt project o) entry
  report (.updated (entryAt project o).name Manifest.fileName)
  return manifest

end Assembly

/-- Composes the enabled features into the project at a path. -/
def assemble (plan : Plan) (path : Path) (o : Options) : Run Outcome := do
  let project ← orFail id (Disk.resolved (← get).here path)
  if !(← Disk.isDirectory project) then
    failWith (.noSeedFile project none)
  let seed ← Assembly.readSeed plan project o
  report (.composing o.projectName)
  let effects ← compose project o plan.providers
  let manifest ← Assembly.writeShared plan project o seed effects.toEffects
  let _ ← EditorFiles.write plan.templates project o
  let _ ← Description.write plan.templates project o
  return { project, effects, manifest, entry := Assembly.entryAt project o }

end Scaffold
