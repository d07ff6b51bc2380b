import Scaffold.Command.Execute

/-!
# The program

Reads the part of the file system that a call can touch, executes the call on it, and writes back
what has changed.
-/

namespace Scaffold.Program

/-- Directories that no call reads or writes in, and that are often large. -/
def skippedNames : List String := ["node_modules", ".git"]

/-- What stands at a place of the file system. -/
def nodeAt (place : List String) : IO (Option Node) := do
  let path := (← IO.currentDir) / (Path.ofPlace place).toString
  if ← path.isDir then return some .directory
  else if ← path.pathExists then return some (.file (← IO.FS.readBinFile path))
  else return none

/-- The names in a directory of the file system. -/
def namesIn (place : List String) : IO (List String) := do
  let path := (← IO.currentDir) / (Path.ofPlace place).toString
  return (← path.readDir).toList.map (·.fileName)

/-- Adds what stands at a place to a tree, and what is below it. -/
partial def load (t : Tree) (place : List String) : IO Tree := do
  match ← nodeAt place with
  | none => return t
  | some (.file content) => return t.set place (.file content)
  | some .directory =>
    let t := t.set place .directory
    if skippedNames.contains (place.getLast?.getD "") then return t
    (← namesIn place).foldlM (fun t name => load t (place ++ [name])) t

/-- Adds what stands at each place on the way to a path. -/
def loadWay (here : List String) (t : Tree) (path : Path) : IO Tree := do
  let parts := path.absolute here
  (List.range parts.length).foldlM (fun t n => do
    let place := Path.collapse (parts.take (n + 1))
    match ← nodeAt place with
    | none => return t
    | some node => return t.set place node) t

/-- The part of the file system that a call can touch. -/
def loadFor (here : List String) : Command.Invocation → IO Tree
  | .idle => return Tree.empty
  | .apply call => do
    let project := call.directory.resolve here
    load (← loadWay here Tree.empty project) project.parts
  | .render call => do
    let t ← loadWay here Tree.empty (Path.ofPlace here)
    let t ← loadWay here t call.template
    match call.destination with
    | .file path => loadWay here t path
    | _ => return t

/-- Writes what differs between two trees to the file system. -/
def save (before after : Tree) : IO Unit := do
  for (place, node) in after.nodes do
    if before.get? place != some node then
      let path := (Path.ofPlace place).toString
      match node with
      | .directory => IO.FS.createDirAll path
      | .file content => IO.FS.writeBinFile path content

/-- Executes a command line on the file system, and gives the status. -/
def run (args : List String) : IO UInt32 := do
  let here := (Path.ofString (← IO.currentDir).toString).parts
  let invocation := ((Command.readArgs args).toOption.map (·.invocation)).getD .idle
  let tree ← loadFor here invocation
  let (console, after) := Command.execute args ⟨tree, here, []⟩
  save tree after.tree
  IO.print console.output
  IO.eprint console.errors
  match console.ending with
  | .ok status => return status.toUInt32
  | .error failure =>
    IO.eprintln failure.message
    return 1

end Scaffold.Program

/-- The program. -/
def main (args : List String) : IO UInt32 := Scaffold.Program.run args
