import Scaffold.Text.Blank
import Scaffold.Text.Search

/-!
# The application's view

The root component of a fresh project shows a greeting. When the application gets routes, the
greeting gives way to the element that renders the current route.

* **One greeting.** The component must hold exactly one greeting element, which takes its line up to
  the last element end on it.
* **Its import goes with it.** The first line that imports the greeting is removed.
-/

namespace Scaffold.AppView

/-- The start of the element that renders the current route. -/
def routeMark : String := "<router-view"

/-- The element that renders the current route. -/
def routeElement : String := "<router-view />"

/-- How the greeting is described when it is not there exactly once. -/
def greetingPattern : String := "<HelloWorld.*/>"

/-- Reads a greeting element, up to the last element end on its line. -/
def greeting? : Text.Recogniser (List Char) := fun s => do
  let rest ← Text.literal? "<HelloWorld" s
  let (body, line) ← Text.splitAfterLast? ['/', '>'] (rest.takeWhile (· != '\n'))
  return ("<HelloWorld".toList ++ body, line ++ rest.dropWhile (· != '\n'))

/-- Reads a line that imports the greeting, from the start of the line, with its newline: what
follows the line. -/
def greetingImport? (s : List Char) : Option (List Char) := do
  let rest ← Text.literal? "import HelloWorld" (s.dropWhile Text.isSpacing)
  Text.literal? "\n" (rest.dropWhile (· != '\n'))

/-- The text without the first line that imports the greeting. -/
def dropGreetingImport (lineStart : Bool) (s : List Char) : List Char :=
  match if lineStart then greetingImport? s else none with
  | some rest => rest
  | none =>
    match s with
    | [] => []
    | c :: rest => c :: dropGreetingImport (c == '\n') rest

/-- Whether the component renders the current route already. -/
def showsRoute (content : String) : Bool := Text.occursIn routeMark.toList content.toList

/-- Puts the element that renders the current route in the place of the greeting. -/
def showRoute (content : String) : Except Text.AnchorFault String := do
  let (before, _, after) ← Text.anchor greetingPattern greeting? content.toList
  return String.ofList (dropGreetingImport true (before ++ routeElement.toList ++ after))

end Scaffold.AppView
