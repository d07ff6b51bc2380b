import Scaffold.Feature

/-!
# Linting

The linting feature adds the configuration of the linter and the script that runs it.

* **Typed projects** have a typed configuration, which joins the list of files that are checked
  together with the build tools. Nothing else in that document changes.
-/

namespace Scaffold.Feature

/-- The document that lists the checked files. -/
def checkedFilesName : String := "tsconfig.node.json"

/-- The files that a document includes; a list that is absent or counts as absent is empty. -/
def includedFiles (members : Entries Json Wide) : Except DocumentProblem (List Json) :=
  match members.get? (.text "include") with
  | none => .ok []
  | some (.arr items) => .ok items
  | some v => if v.isFalsy then .ok [] else .error .includeNotList

/-- Whether a file is in a list. -/
def listsFile (name : String) (items : List Json) : Bool :=
  items.any fun v =>
    match v with
    | .str s => s == .text name
    | _ => false

/-- The document with a file added to the included ones, or nothing if it is there already. -/
def includeFile (name : String) : Json → Except DocumentProblem (Option Json)
  | .obj members => do
    let items ← includedFiles members
    if listsFile name items then return none
    return some (.obj (Entries.insert (.text "include") (.arr (items ++ [.str name])) members))
  | _ => .error .notObject

/-- Adds a file to the ones that the document at a path includes. -/
def patchCheckedFiles (path : Path) (name : String) : Run Unit := do
  let document ← Disk.requireJson path (some "eslint")
  match ← orFail (.badDocument path) (includeFile name document) with
  | none => return ()
  | some changed =>
    Disk.writeValue path changed
    report (.included name path)

/-- What the linting feature asks for. -/
def lintingEffects (o : Options) : Effects where
  devDependencies := ["eslint", "@antfu/eslint-config"] ++ if o.typescript then ["jiti"] else []
  scripts := [("lint", "eslint . --fix")]

/-- The linting feature. -/
def linting (src : Template.Source) : Provider where
  name := "eslint"
  selected o := o.eslint
  install project o := do
    let name := s!"eslint.config.{o.scriptExtension}"
    let texts := o.templateTexts ++
      [("typeScriptConfig", if o.typescript then "typescript: true," else ""),
       ("unoESLintConfig", if o.unocss then "unocss: true," else "")]
    src.emit "eslint/eslint.config.js.tpl" (below project [name]) (Template.ofTexts texts)
    if o.typescript then
      patchCheckedFiles (below project [checkedFilesName]) name
    return lintingEffects o

end Scaffold.Feature
