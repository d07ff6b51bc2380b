import Scaffold.Json.Basic
import Scaffold.Template.Render

/-!
# Project options

The choices that a run is made for. They are settled once and then only read.

* **Two closed choices.** The package manager and the style strategy are types of their own, each
  with its words.
* **What templates may mention** is the name, the package manager and the script extension.
-/

namespace Scaffold

/-- The package managers a project can be driven with. -/
inductive PackageManager where
  /-- pnpm, which is itself added to the development dependencies -/
  | pnpm
  /-- npm -/
  | npm
  deriving DecidableEq, Repr

/-- The style strategies on top of plain style sheets. -/
inductive StyleStrategy where
  /-- plain style sheets -/
  | none
  /-- the Sass language -/
  | sass
  /-- the Less language -/
  | less
  /-- the Lightning CSS transformer -/
  | lightningcss
  deriving DecidableEq, Repr

/-- The choices for one run. -/
structure Options where
  /-- the name of the project, a valid package name -/
  projectName : String
  /-- the package manager -/
  packageManager : PackageManager := .pnpm
  /-- whether scripts are typed -/
  typescript : Bool := true
  /-- whether the application gets routes -/
  router : Bool := false
  /-- whether the application gets a store -/
  store : Bool := false
  /-- whether the code is linted -/
  eslint : Bool := false
  /-- the style strategy -/
  css : StyleStrategy := .none
  /-- whether utility classes are generated -/
  unocss : Bool := false
  /-- whether commits are checked -/
  gitHooks : Bool := false
  deriving DecidableEq, Repr

/-- The word for a package manager. -/
def PackageManager.word : PackageManager → String
  | .pnpm => "pnpm"
  | .npm => "npm"

/-- All package managers. -/
def PackageManager.all : List PackageManager := [.pnpm, .npm]

/-- The word for a style strategy. -/
def StyleStrategy.word : StyleStrategy → String
  | .none => "none"
  | .sass => "sass"
  | .less => "less"
  | .lightningcss => "lightningcss"

/-- All style strategies. -/
def StyleStrategy.all : List StyleStrategy := [.none, .sass, .less, .lightningcss]

/-- The package manager that a word names. -/
def PackageManager.ofWord? (word : String) : Option PackageManager :=
  PackageManager.all.find? (·.word == word)

/-- The style strategy that a word names. -/
def StyleStrategy.ofWord? (word : String) : Option StyleStrategy :=
  StyleStrategy.all.find? (·.word == word)

namespace Options

/-- The extension of script files. -/
def scriptExtension (o : Options) : String := if o.typescript then "ts" else "js"

/-- The texts that every template may mention. -/
def templateTexts (o : Options) : Entries String :=
  [("projectName", o.projectName), ("packageManager", o.packageManager.word),
   ("scriptExtension", o.scriptExtension)]

/-- The options by name. -/
def entries (o : Options) : Entries Json :=
  [("project_name", .str o.projectName), ("package_manager", .str o.packageManager.word),
   ("typescript", .bool o.typescript), ("router", .bool o.router), ("store", .bool o.store),
   ("eslint", .bool o.eslint), ("css", .str o.css.word), ("unocss", .bool o.unocss),
   ("git_hooks", .bool o.gitHooks)]

end Options

/-- Texts as the values of a template. -/
def Template.ofTexts (texts : Entries String) : Template.Context :=
  texts.map fun (name, text) => (name, .text text)

end Scaffold
