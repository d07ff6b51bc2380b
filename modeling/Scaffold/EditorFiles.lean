import Scaffold.Feature

/-!
# Editor files

The files that set up the editor for a project: the extensions it recommends, and its settings.
-/

namespace Scaffold.EditorFiles

/-- The settings that make the linter the formatter. -/
def lintSettings : String := "\n".intercalate
  ["  \"prettier.enable\": false,",
   "  \"editor.formatOnSave\": false,",
   "  \"editor.codeActionsOnSave\": \x7b",
   "    \"source.fixAll.eslint\": \"explicit\",",
   "    \"source.organizeImports\": \"never\"",
   "  \x7d,"]

/-- The extensions that a project recommends. -/
def recommendations (o : Options) : List String :=
  ["Vue.volar"] ++ (if o.eslint then ["dbaeumer.vscode-eslint"] else []) ++
    (if o.unocss then ["antfu.unocss"] else [])

/-- The document that lists the extensions. -/
def extensionsDocument (o : Options) : Json :=
  .obj [("recommendations", .arr ((recommendations o).map fun s : String => .str s))]

/-- Writes the editor files, and gives their paths. -/
def write (src : Template.Source) (project : Path) (o : Options) : Run (List Path) := do
  let extensions := Feature.below project [".vscode", "extensions.json"]
  let settings := Feature.below project [".vscode", "settings.json"]
  Disk.writeValue extensions (extensionsDocument o)
  src.emit "vscode/settings.json.tpl" settings
    (Template.ofTexts [("eslintSettings", if o.eslint then lintSettings else "")])
  return [extensions, settings]

end Scaffold.EditorFiles
