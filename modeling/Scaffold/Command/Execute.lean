import Scaffold.Command.Context
import Scaffold.Command.Invocation
import Scaffold.Assembly
import Scaffold.Options.Reading

/-!
# Executing a call

A command line is read, what it calls for is carried out on the files, and the outcome is told: on
the output what was asked for, beside it the log and the reports of failures, and the status.

* **Status** 0 is success, 1 a failure that the program detects itself, 2 a wrong command line or
  wrong options. Any other failure ends the program as it is, and so does an option without a value
  where the call needs one.
* **What is left out.** Arguments are texts, and so are the names of files: there is no byte in either
  that has no place in a text.
-/

namespace Scaffold.Command

/-- What a call shows and how it ends. -/
structure Console where
  /-- what goes to the output -/
  output : String
  /-- what goes beside it: the log and the reports -/
  errors : String
  /-- the status, or the failure that ends the program -/
  ending : Except Failure Nat

/-- The least level of the log that is shown. -/
def shownLevel (verbosity : Nat) : Level :=
  match verbosity with
  | 0 => .warning
  | 1 => .info
  | _ => .debug

/-- A wrong command line. -/
def usageError (program message : String) : Console :=
  ⟨"", s!"{program}: error: {message}\n", .ok 2⟩

/-- Shows what a run came to. -/
def conclude {α : Type} (verbosity : Nat) (success : α → String) (r : Except Failure α)
    (log : List Event) : Console :=
  let lines := logLines (shownLevel verbosity)
  match r with
  | .ok a => ⟨success a, lines log, .ok 0⟩
  | .error failure =>
    if failure.isScaffold then
      ⟨"", lines (log ++ [.failed]) ++ s!"error: {failure.message}\n", .ok 1⟩
    else ⟨"", lines log, .error failure⟩

/-- What a call to apply features needs, before the name of the project is checked. -/
structure Request where
  /-- the name of the project -/
  name : String
  /-- the package manager -/
  packageManager : PackageManager
  /-- the style strategy -/
  css : StyleStrategy
  deriving DecidableEq, Repr

/-- The value of an option that a call cannot do without. -/
def needed {α : Type} (option : ValueOption) : Option α → Except Failure α
  | some value => .ok value
  | none => .error (.noValue option)

/-- What a call to apply features needs; a project without a name takes that of its directory. The
first thing that is missing ends the call. -/
def ApplyCall.request (c : ApplyCall) (here : List String) : Except Failure Request := do
  let name ←
    if c.name.isEmpty then (Disk.resolved here c.directory).map Path.name else .ok c.name
  let packageManager ← needed .packageManager c.packageManager
  let css ← needed .css c.css
  return { name, packageManager, css }

/-- The options that a call asks for. -/
def ApplyCall.options (c : ApplyCall) (r : Request) : Except (List FieldFault) Options :=
  match Options.readName (.str r.name) with
  | .error problem => .error [⟨[.key "project_name"], problem⟩]
  | .ok projectName =>
    .ok { projectName, packageManager := r.packageManager, typescript := c.typescript
          router := c.router, store := c.store, eslint := c.eslint, css := r.css
          unocss := c.unocss, gitHooks := c.gitHooks }

/-- The text that tells of a configured project and what to do with it. -/
def configuredText (c : ApplyCall) (o : Options) (outcome : Outcome) : String :=
  let names := outcome.effects.features
  let features := if names.isEmpty then "none" else ", ".intercalate names
  let pm := o.packageManager.word
  s!"Project configured at {outcome.project} (features: {features})\n" ++
    s!"Next steps:\n  cd {c.directory}\n  {pm} install\n  {pm} dev\n"

/-- Applies features. -/
def executeApply (verbosity : Nat) (c : ApplyCall) (s : Session) : Console × Session :=
  match c.request s.here with
  | .error failure => (⟨"", "", .error failure⟩, s)
  | .ok request =>
    match c.options request with
    | .error faults =>
      let summary := faultSummary "ProjectOptions" faults
      (⟨"", s!"error: invalid options\n{summary}\n", .ok 2⟩, s)
    | .ok o =>
      let (r, after) := (assemble {} c.directory o).perform { s with log := [] }
      (conclude verbosity (configuredText c o) r after.log, after)

/-- A text with a line end. -/
def endLine (text : String) : String :=
  if text.toList.getLast? == some '\n' then text else text ++ "\n"

/-- Renders a template, and gives what goes to the output. That the file has no name is only noticed
when the result is to be written. -/
def RenderCall.run (c : RenderCall) (ctx : Template.Context) : Run String := do
  match c.destination with
  | .output => return endLine (← Template.renderPath c.template ctx none)
  | .file path =>
    let _ ← Template.renderPath c.template ctx (some path)
    return ""
  | .unnamed =>
    let _ ← Template.renderPath c.template ctx none
    failWith (.noValue .output)

/-- Renders a template. -/
def executeRender (verbosity : Nat) (c : RenderCall) (s : Session) : Console × Session :=
  match readContext c.context with
  | .error (.keyless entry) => (usageError programName (entryRefusal entry), s)
  | .error .absent => (⟨"", "", .error (.noValue .context)⟩, s)
  | .ok ctx =>
    let (r, after) := (c.run ctx).perform { s with log := [] }
    (conclude verbosity id r after.log, after)

/-- Carries out a command line on the files. -/
def execute (args : List String) (s : Session) : Console × Session :=
  match readArgs args with
  | .error (.help text) => (⟨text, "", .ok 0⟩, s)
  | .error (.usage program message) => (usageError program message, s)
  | .ok settings =>
    match settings.invocation with
    | .apply call => executeApply settings.verbosity call s
    | .render call => executeRender settings.verbosity call s
    | .idle => (usageError programName "no command provided", s)

end Scaffold.Command
