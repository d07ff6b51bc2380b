import Scaffold.Feature

/-!
# The description of a project

The description lists the features of a project, its scripts and its files. Lines that do not apply
are left out by the template, so an empty text stands for a line that goes away.
-/

namespace Scaffold.Description

/-- The label of a style strategy. -/
def styleLabel : StyleStrategy → String
  | .none => ""
  | .sass => "Sass"
  | .less => "Less"
  | .lightningcss => "Lightning CSS"

/-- The line about a feature, if it applies. -/
def lineIf (applies : Bool) (line : String) : List String := if applies then [line] else []

/-- The line of a project without any feature. -/
def basicLine : String := "- **Vue + Vite**: a minimal Vue 3 application."

/-- The lines about the features of a project. -/
def bullets (o : Options) : List String :=
  let label := styleLabel o.css
  let lines :=
    lineIf (o.packageManager == .pnpm) "- **pnpm**: fast, disk space efficient package manager." ++
    lineIf o.typescript "- **TypeScript**: typed JavaScript for safer refactoring." ++
    lineIf o.router "- **Vue Router**: the official router for single-page applications." ++
    lineIf o.store "- **Pinia**: lightweight, type-safe state management for Vue." ++
    lineIf o.eslint "- **ESLint**: linting and code style checks." ++
    lineIf (o.css != .none) s!"- **{label}**: {label} CSS processing." ++
    lineIf o.unocss "- **UnoCSS**: instant on-demand atomic CSS engine." ++
    lineIf o.gitHooks "- **Git commit conventions**: husky, lint-staged and commitlint."
  if lines.isEmpty then [basicLine] else lines

/-- A section that ends with exactly one line end, or nothing if it holds nothing but white space. -/
def sectionText (text : String) : String :=
  if (Text.trim text).isEmpty then ""
  else String.ofList (Text.trimEnd (· == '\n') text.toList) ++ "\n"

/-- The sections on code quality. -/
def qualitySections (src : Template.Source) (o : Options) : Run String := do
  if o.eslint || o.gitHooks then
    let ctx := Template.ofTexts [("packageManager", o.packageManager.word)]
    let linting ← if o.eslint then src.render "readme/eslint.md.tpl" ctx else pure ""
    let commits ← if o.gitHooks then src.render "readme/git-hooks.md.tpl" ctx else pure ""
    src.render "readme/quality-tools.md.tpl" (Template.ofTexts
      [("eslintSection", sectionText linting), ("gitHooksSection", sectionText commits)])
  else return ""

/-- The text that stands for a line of the description, empty if it does not apply. -/
def textIf (applies : Bool) (text : String) : String := if applies then text else ""

/-- The texts that the description's template mentions. -/
def context (src : Template.Source) (o : Options) : Run (Entries String) := do
  let ext := o.scriptExtension
  let pm := o.packageManager.word
  let quality ← qualitySections src o
  return o.templateTexts ++
    [("features", "\n".intercalate (bullets o)),
     ("mainFileExtension", ext),
     ("viteConfigExtension", ext),
     ("lintScript",
      textIf o.eslint s!"- \x60{pm} run lint\x60: lint the code and fix problems automatically."),
     ("routerDir", textIf o.router "│   ├── router/       # route definitions"),
     ("storeDir", textIf o.store "│   ├── store/        # Pinia stores"),
     ("viewsDir", textIf o.router "│   ├── views/        # page components"),
     ("tsconfig", textIf o.typescript "├── tsconfig.json\n├── tsconfig.node.json"),
     ("eslintConfig", textIf o.eslint s!"├── eslint.config.{ext}"),
     ("unocssConfig", textIf o.unocss s!"├── uno.config.{ext}"),
     ("commitlintConfig", textIf o.gitHooks "├── commitlint.config.js\n├── .husky/"),
     ("codeQualityTools", sectionText quality)]

/-- The path of the description. -/
def path (project : Path) : Path := Feature.below project ["README.md"]

/-- Writes the description of a project, and gives its path. -/
def write (src : Template.Source) (project : Path) (o : Options) : Run Path := do
  src.emit "readme/README.md.tpl" (path project) (Template.ofTexts (← context src o))
  return path project

end Scaffold.Description
