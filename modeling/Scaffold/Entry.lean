import Scaffold.Text.Blank
import Scaffold.Text.Search
import Scaffold.Text.Word

/-!
# The entry file

The entry file of an application constructs it and mounts it in one expression,
`createApp(App).mount('#app')`. Features hook in between, so the expression is taken apart into
statements of its own.

* **One mount expression.** The file is split around it; a file with none or several is refused.
* **Expansion.** The application gets a variable, each use call is made on it, and it is mounted last.
  The imports of the features go to the top of the file.
-/

namespace Scaffold

/-- The expression that constructs an application and mounts it. -/
structure Mount where
  /-- the name of the function that constructs the application -/
  factory : String
  /-- the root component -/
  root : String
  /-- where the application is mounted -/
  selector : String
  /-- the quotation mark of the selector -/
  quote : Char
  deriving DecidableEq, Repr

/-- An entry file split around its mount expression. -/
structure SplitEntry where
  /-- the text before the expression -/
  head : String
  /-- the expression -/
  mount : Mount
  /-- the text after it -/
  tail : String
  deriving DecidableEq, Repr

/-- The name under which applications are constructed. -/
def defaultFactory : String := "createApp"

/-- The name of the variable that holds the application. -/
def defaultVariable : String := "app"

/-! ## Reading -/

/-- A character that an identifier may begin with: an ASCII letter, an underscore or a dollar. -/
def isIdentifierStart (c : Char) : Bool := c.isAlpha || c == '_' || c == '$'

/-- A character that an identifier may go on with. -/
def isIdentifierChar (c : Char) : Bool := Text.isWordChar c || c == '$'

/-- Reads an identifier. -/
def identifier? : Text.Recogniser String
  | [] => none
  | c :: rest =>
    if isIdentifierStart c then
      some (String.ofList (c :: rest.takeWhile isIdentifierChar), rest.dropWhile isIdentifierChar)
    else none

/-- A quotation mark of either kind. -/
def isQuote (c : Char) : Bool := c == '\x27' || c == '"'

/-- Reads a quoted text that holds no quotation mark of either kind: the text and its mark. -/
def quotedText? : Text.Recogniser (String × Char)
  | [] => none
  | c :: rest =>
    if isQuote c then
      match rest.dropWhile (!isQuote ·) with
      | d :: after =>
        if d == c then some ((String.ofList (rest.takeWhile (!isQuote ·)), c), after) else none
      | [] => none
    else none

/-- The text after the white space at its start. -/
def skipBlanks (s : List Char) : List Char := s.dropWhile Text.isBlank

/-- The text after the spaces and tabs at its start and a semicolon after them. -/
def skipStatementEnd (s : List Char) : List Char :=
  match s.dropWhile Text.isSpacing with
  | ';' :: rest => rest
  | rest => rest

/-- Reads a mount expression with what ends its statement. -/
def mount? (factory : String) : Text.Recogniser Mount := fun s => do
  let s ← Text.literal? factory s
  let s ← Text.literal? "(" s
  let (root, s) ← identifier? (skipBlanks s)
  let s ← Text.literal? ")" (skipBlanks s)
  let s ← Text.literal? ".mount(" (skipBlanks s)
  let ((selector, quote), s) ← quotedText? (skipBlanks s)
  let s ← Text.literal? ")" (skipBlanks s)
  return (⟨factory, root, selector, quote⟩, skipStatementEnd s)

/-- How the mount expression is described when it is not there exactly once. -/
def mountForm (factory : String) : String := s!"{factory}(<Root>).mount(<selector>)"

/-- Splits an entry file around its only mount expression. -/
def SplitEntry.ofText (factory content : String) : Except Text.AnchorFault SplitEntry := do
  let (head, mount, tail) ← Text.anchor (mountForm factory) (mount? factory) content.toList
  return ⟨String.ofList head, mount, String.ofList tail⟩

/-! ## Rewriting -/

/-- The statements that take the place of a mount expression. -/
def Mount.statements (m : Mount) (useCalls : List String) (name : String) : String :=
  let construct := s!"const {name} = {m.factory}({m.root});"
  let calls := useCalls.map fun call => s!"{name}{call};"
  let quote := m.quote.toString
  let mounting := s!"{name}.mount({quote}{m.selector}{quote});"
  "\n".intercalate (construct :: calls ++ [mounting])

/-- The entry file with the imports at its top and its mount expression expanded. -/
def SplitEntry.withFeatures (e : SplitEntry) (imports useCalls : List String) (name : String) : String :=
  let body := e.head ++ e.mount.statements useCalls name ++ e.tail
  if imports.isEmpty then body else "\n".intercalate imports ++ "\n" ++ body

/-- The names used when an entry file is rewritten. -/
structure EntryNames where
  /-- the name of the function that constructs the application -/
  factory : String := defaultFactory
  /-- the name of the variable that holds it -/
  name : String := defaultVariable
  deriving DecidableEq, Repr

/-- Rewrites an entry file for the imports and use calls of the features. -/
def rewriteEntry (names : EntryNames) (content : String) (imports useCalls : List String) :
    Except Text.AnchorFault String := do
  let entry ← SplitEntry.ofText names.factory content
  return entry.withFeatures imports useCalls names.name

end Scaffold
