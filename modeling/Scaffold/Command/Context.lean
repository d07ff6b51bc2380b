import Scaffold.Template.Render

/-!
# Context entries on the command line

A template's context is given entry by entry. `KEY=VALUE` binds a text, `KEY=` the empty text, which
drops lines that hold only the placeholder, and a bare `KEY` keeps such lines without the
placeholder. An option without a value gives no entry, and nothing can be read.
-/

namespace Scaffold.Command

/-- Reads one entry; nothing if it has no key. -/
def readEntry? (entry : String) : Option (String × Template.Value) :=
  let s := entry.toList
  let key := Text.trim (String.ofList (s.takeWhile (· != '=')))
  if key.isEmpty then none
  else match s.dropWhile (· != '=') with
    | [] => some (key, .flag true)
    | _ :: value => some (key, .text (String.ofList value))

/-- Why an entry cannot be read. -/
inductive EntryFault where
  /-- it has no key -/
  | keyless (entry : String)
  /-- its option has no value -/
  | absent
  deriving DecidableEq, Repr

/-- Writes entries over a context; the first one that cannot be read ends it. -/
def readEntries (ctx : Template.Context) :
    List (Option String) → Except EntryFault Template.Context
  | [] => .ok ctx
  | none :: _ => .error .absent
  | some entry :: rest =>
    match readEntry? entry with
    | none => .error (.keyless entry)
    | some (key, value) => readEntries (ctx.insert key value) rest

/-- The context that entries stand for, or the fault of the first one that cannot be read. -/
def readContext (entries : List (Option String)) : Except EntryFault Template.Context :=
  readEntries [] entries

/-- The refusal of an entry without a key in words. -/
def entryRefusal (entry : String) : String :=
  s!"invalid context entry '{entry}'. Expected KEY, KEY= or KEY=VALUE."

end Scaffold.Command
