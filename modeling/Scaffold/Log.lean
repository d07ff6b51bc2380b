import Scaffold.Path
import Scaffold.Text.Quoted

/-!
# The log

What a run reports while it goes on. Events are kept as what happened; how loud they are, who
reports them and how they read is decided here once.
-/

namespace Scaffold

/-- How important an event is. -/
inductive Level where
  /-- of interest when looking for a mistake -/
  | debug
  /-- of interest when watching a run -/
  | info
  /-- of interest always -/
  | warning
  deriving DecidableEq, Repr

/-- The kinds of statements that features add to the entry file. -/
inductive Statement where
  /-- an import at the top -/
  | importLine
  /-- a call on the application -/
  | useCall
  deriving DecidableEq, Repr

/-- What happened during a run. -/
inductive Event where
  /-- the features of a project are about to be composed -/
  | composing (project : String)
  /-- a feature is about to be set up -/
  | settingUp (feature : String)
  /-- a feature is left out because it is not enabled -/
  | skipping (feature : String)
  /-- a feature adds a statement that an earlier one added already -/
  | repeated (kind : Statement) (text feature : String)
  /-- all features have been composed -/
  | composed (features dependencies devDependencies : List String)
  /-- the entry file and the manifest have been written -/
  | updated (entry manifest : String)
  /-- the greeting of the root component gave way to the current route -/
  | routeShown (path : Path)
  /-- the root component showed the current route already -/
  | routeShownBefore (path : Path)
  /-- a file was added to the list of checked files -/
  | included (file : String) (path : Path)
  /-- the style transformer was configured -/
  | transformerSet (path : Path)
  /-- the command is about to report a failure -/
  | failed
  deriving DecidableEq, Repr

namespace Event

/-- How important an event is. -/
def level : Event → Level
  | .composing _ => .info
  | .settingUp _ => .info
  | .updated _ _ => .info
  | .repeated _ _ _ => .warning
  | _ => .debug

/-- The part of the program that reports an event. -/
def reporter : Event → String
  | .composing _ => "generator"
  | .updated _ _ => "generator"
  | .settingUp _ => "compose"
  | .skipping _ => "compose"
  | .repeated _ _ _ => "compose"
  | .composed _ _ _ => "compose"
  | .routeShown _ => "features.router"
  | .routeShownBefore _ => "features.router"
  | .included _ _ => "features.linter"
  | .transformerSet _ => "features.css"
  | .failed => "cli"

/-- A list of names in round brackets; a single name is followed by a comma. -/
def nameList : List String → String
  | [name] => s!"({Text.quoted name},)"
  | names =>
    let list := ", ".intercalate (names.map Text.quoted)
    s!"({list})"

/-- An event in words. -/
def message : Event → String
  | .composing project => s!"composing features for {project}"
  | .settingUp feature => s!"setting up feature '{feature}'"
  | .skipping feature => s!"skipping disabled feature '{feature}'"
  | .repeated kind text feature =>
    let label := match kind with
      | .importLine => "import"
      | .useCall => "use call"
    s!"duplicate {label} {Text.quoted text} declared by '{feature}'"
  | .composed features dependencies devDependencies =>
    s!"composed features={nameList features} dependencies={nameList dependencies} " ++
      s!"dev_dependencies={nameList devDependencies}"
  | .updated entry manifest => s!"updated {entry} and {manifest}"
  | .routeShown path => s!"replaced HelloWorld with <router-view> in {path}"
  | .routeShownBefore path => s!"{path} already renders <router-view>"
  | .included file path => s!"added {file} to {path}"
  | .transformerSet path => s!"configured lightningcss in {path}"
  | .failed => "generation failed"

end Event

/-- The name of a level. -/
def Level.label : Level → String
  | .debug => "DEBUG"
  | .info => "INFO"
  | .warning => "WARNING"

/-- The rank of a level. -/
def Level.rank : Level → Nat
  | .debug => 0
  | .info => 1
  | .warning => 2

/-- An event as a line of the log. -/
def Event.line (e : Event) : String :=
  s!"{e.level.label} vitesmith.{e.reporter}: {e.message}\n"

/-- The lines of the events that are at least as important as `least`. -/
def logLines (least : Level) (events : List Event) : String :=
  String.join ((events.filter fun e => least.rank ≤ e.level.rank).map Event.line)

/-- The messages of the warnings. -/
def warnings (events : List Event) : List String :=
  (events.filter (·.level == .warning)).map Event.message

/-- The features that were set up, in order. -/
def setUpFeatures (events : List Event) : List String :=
  events.filterMap fun e =>
    match e with
    | .settingUp feature => some feature
    | _ => none

end Scaffold
