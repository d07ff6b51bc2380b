import Scaffold.Command.Grammar
import Scaffold.Command.Help
import Scaffold.Path
import Scaffold.Options

/-!
# Invocations

What the program can be called for: to apply features to a project, or to render a template.
-/

namespace Scaffold.Command

/-- A call to apply features. -/
structure ApplyCall where
  /-- the directory of the project -/
  directory : Path
  /-- the name of the project, empty if the directory's name is to be taken -/
  name : String
  /-- whether the seed project is typed -/
  typescript : Bool
  /-- the package manager, nothing if its option has no value -/
  packageManager : Option PackageManager
  /-- whether routes are asked for -/
  router : Bool
  /-- whether a store is asked for -/
  store : Bool
  /-- whether linting is asked for -/
  eslint : Bool
  /-- the style strategy, nothing if its option has no value -/
  css : Option StyleStrategy
  /-- whether utility classes are asked for -/
  unocss : Bool
  /-- whether commit checks are asked for -/
  gitHooks : Bool
  deriving DecidableEq, Repr

/-- Where a rendered template goes. -/
inductive Destination where
  /-- to the output -/
  | output
  /-- to a file -/
  | file (path : Path)
  /-- to a file, but the option has no value -/
  | unnamed
  deriving DecidableEq, Repr

/-- A call to render a template. -/
structure RenderCall where
  /-- the template -/
  template : Path
  /-- the entries of its context as they were written, nothing for an option without a value -/
  context : List (Option String)
  /-- where the result goes -/
  destination : Destination
  deriving DecidableEq, Repr

/-- What the program is called for. -/
inductive Invocation where
  /-- nothing yet -/
  | idle
  /-- applying features -/
  | apply (call : ApplyCall)
  /-- rendering a template -/
  | render (call : RenderCall)
  deriving DecidableEq, Repr

/-- The settings of a call. -/
structure Settings where
  /-- how often more output was asked for -/
  verbosity : Nat := 0
  /-- what the program is called for -/
  invocation : Invocation := .idle
  deriving DecidableEq, Repr

/-- The words for the kinds of seed projects; the first is untyped. -/
def seedKinds : List String := ["vue", "vue-ts"]

/-- The option that asks for help. -/
def helpFlag {σ : Type} : Flag σ := ⟨["-h", "--help"], .help⟩

/-- A call to apply features before anything of it has been read. -/
def ApplyCall.initial : ApplyCall where
  directory := Path.ofString ""
  name := ""
  typescript := true
  packageManager := some .pnpm
  router := false
  store := false
  eslint := false
  css := some .none
  unocss := false
  gitHooks := false

/-- The grammar of a call to apply features. -/
def applyGrammar : Grammar ApplyCall where
  program := "vitesmith apply"
  help := applyHelp
  flags :=
    [helpFlag,
     ⟨["-n", "--name"], .value none fun v c => { c with name := v.getD "" }⟩,
     ⟨["-t", "--template"], .value (some seedKinds) fun v c =>
       { c with typescript := v == some "vue-ts" }⟩,
     ⟨["--package-manager"], .value (some (PackageManager.all.map PackageManager.word))
       fun v c => { c with packageManager := v.bind PackageManager.ofWord? }⟩,
     ⟨["--router"], .flag fun c => { c with router := true }⟩,
     ⟨["--store"], .flag fun c => { c with store := true }⟩,
     ⟨["--eslint"], .flag fun c => { c with eslint := true }⟩,
     ⟨["--css"], .value (some (StyleStrategy.all.map StyleStrategy.word))
       fun v c => { c with css := v.bind StyleStrategy.ofWord? }⟩,
     ⟨["--unocss"], .flag fun c => { c with unocss := true }⟩,
     ⟨["--git-hooks"], .flag fun c => { c with gitHooks := true }⟩]
  positional := .single "directory" fun v c => { c with directory := Path.ofString v }

/-- A call to render a template before anything of it has been read. -/
def RenderCall.initial : RenderCall := ⟨Path.ofString "", [], .output⟩

/-- Where the option with a value sends the result. -/
def Destination.ofOption (value : Option String) : Destination :=
  value.elim .unnamed fun name => .file (Path.ofString name)

/-- The grammar of a call to render a template. -/
def renderGrammar : Grammar RenderCall where
  program := "vitesmith render"
  help := renderHelp
  flags :=
    [helpFlag,
     ⟨["-c", "--context"], .value none fun v c => { c with context := c.context ++ [v] }⟩,
     ⟨["-o", "--output"], .value none fun v c => { c with destination := .ofOption v }⟩]
  positional := .single "template" fun v c => { c with template := Path.ofString v }

/-- Reads what follows the name of a subcommand. -/
def readCommand (name : String) (args : List String) (s : Settings) :
    Except Stop (Settings × List String) :=
  if name == "apply" then do
    let (call, extras) ← applyGrammar.parseKnown args .initial
    return ({ s with invocation := .apply call }, extras)
  else do
    let (call, extras) ← renderGrammar.parseKnown args .initial
    return ({ s with invocation := .render call }, extras)

/-- The name of the program. -/
def programName : String := "vitesmith"

/-- The grammar of the program. -/
def mainGrammar : Grammar Settings where
  program := programName
  help := mainHelp
  flags :=
    [helpFlag,
     ⟨["-v", "--verbose"], .flag fun s => { s with verbosity := s.verbosity + 1 }⟩]
  positional := .command "command" ["apply", "render"] readCommand

/-- Reads a command line. -/
def readArgs (args : List String) : Except Stop Settings := mainGrammar.parse args {}

end Scaffold.Command
