import Scaffold.Text.Blank
import Scaffold.Text.Lines
import Scaffold.Text.Search

/-!
# The build configuration

The build tool is configured by a source file that imports plugins and exports one object. Features
edit it by inserting text at fixed anchors.

* **Imports** go after the last import line.
* **Plugins** go to the front of the plugin list.
* **Settings** go to the front of the configuration object.
* **Repeatable.** What is already there is not inserted again.
-/

namespace Scaffold.BuildConfig

/-! ## Imports -/

/-- Reads an import line, from the start of a line: the word, one blank character of any kind, and
the rest of the line that this character leads to. -/
def importLine? (s : List Char) : Option (List Char × List Char) :=
  match Text.literal? "import" s with
  | some (c :: rest) =>
    if Text.isBlank c then
      some ("import".toList ++ c :: rest.takeWhile (· != '\n'), rest.dropWhile (· != '\n'))
    else none
  | _ => none

/-- The text up to the end of the last import line, and what follows it. -/
def splitAfterImports? (lineStart : Bool) (s : List Char) : Option (List Char × List Char) :=
  match if lineStart then importLine? s else none with
  | some (line, rest) =>
    if _h : rest.length < s.length then
      match splitAfterImports? false rest with
      | some (before, after) => some (line ++ before, after)
      | none => some (line, rest)
    else none
  | none =>
    match s with
    | [] => none
    | c :: rest => (splitAfterImports? (c == '\n') rest).map fun (b, a) => (c :: b, a)
termination_by s.length

/-- How the import lines are described when there is none. -/
def importPattern : String := "^import\\s.*$"

/-- Inserts the lines that are not there yet after the last import line. -/
def insertImports (content : String) (lines : List String) : Except Text.AnchorFault String :=
  let present := Text.breakLines content.toList
  let missing := lines.filter fun line => !present.contains line.toList
  if missing.isEmpty then .ok content
  else match splitAfterImports? true content.toList with
    | none => .error ⟨importPattern, 0⟩
    | some (before, after) =>
      .ok (String.ofList before ++ "\n" ++ "\n".intercalate missing ++ String.ofList after)

/-! ## Plugins -/

/-- Reads the start of the plugin list: the text with its bracket, and the blanks and line end after
the bracket. -/
def pluginList? : Text.Recogniser (List Char × List Char) := fun s => do
  let rest ← Text.literal? "plugins:" s
  let blanks := rest.takeWhile Text.isBlank
  let rest ← Text.literal? "[" (rest.dropWhile Text.isBlank)
  let head := "plugins:".toList ++ blanks ++ ['[']
  let spacing := rest.takeWhile Text.isSpacing
  match rest.dropWhile Text.isSpacing with
  | '\n' :: rest => return ((head, spacing ++ ['\n']), rest)
  | rest => return ((head, spacing), rest)

/-- How the plugin list is described when it is not there exactly once. -/
def pluginPattern : String := "(?P<head>plugins:\\s*\\[)(?P<gap>[ \\t]*\\n?)"

/-- The start of the plugin list with a call put in front: on a line of its own, indented like the
line it pushes down, if the list begins on a new line; else before the bracket or the next call. -/
def withPlugin (call head gap after : List Char) : List Char :=
  if gap.contains '\n' then
    let indent := after.takeWhile Text.isSpacing
    let indent := if indent.isEmpty then List.replicate 4 ' ' else indent
    head ++ '\n' :: indent ++ call ++ [',', '\n']
  else if after.head? == some ']' then head ++ call
  else head ++ call ++ [',', ' ']

/-- Puts a plugin call in front of the plugin list, unless the text already occurs somewhere. -/
def insertPlugin (content call : String) : Except Text.AnchorFault String := do
  if Text.occursIn call.toList content.toList then return content
  let (before, (head, gap), after) ← Text.anchor pluginPattern pluginList? content.toList
  return String.ofList (before ++ withPlugin call.toList head gap after ++ after)

/-! ## Settings -/

/-- Reads the start of the configuration object, which ends its line. -/
def configObject? : Text.Recogniser (List Char) := fun s => do
  let rest ← Text.literal? "defineConfig(\x7b" s
  let spacing := rest.takeWhile Text.isSpacing
  let rest ← Text.literal? "\n" (rest.dropWhile Text.isSpacing)
  return ("defineConfig(\x7b".toList ++ spacing ++ ['\n'], rest)

/-- How the configuration object is described when it is not there exactly once. -/
def configPattern : String := "defineConfig\\(\\\x7b[ \\t]*\\n"

/-- A block as lines of the configuration object, indented by two spaces; empty lines stay empty. -/
def indentBlock (block : List Char) : List Char :=
  (Text.breakLines block).flatMap fun line =>
    (if line.isEmpty then [] else ' ' :: ' ' :: line) ++ ['\n']

/-- Puts a block in front of the entries of the configuration object, unless the marker that tells
its presence already occurs. -/
def insertSettings (content block marker : String) : Except Text.AnchorFault String := do
  if Text.occursIn marker.toList content.toList then return content
  let (before, start, after) ← Text.anchor configPattern configObject? content.toList
  return String.ofList (before ++ start ++ indentBlock block.toList ++ after)

end Scaffold.BuildConfig
