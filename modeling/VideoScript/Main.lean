import VideoScript.Command.Places

/-!
# The program

Takes the part of the disk and of the environment that a command needs, runs the command, and shows
and writes what comes of it. What may not be opened stands in the tree as closed. The program has no
network: a command that needs one fails.
-/

set_option autoImplicit false

namespace VideoScript.Program

/-- The tree after a file could not be opened. -/
def takeFailure (tree : FileTree) (path : String) : IO.Error → FileTree
  | .permissionDenied .. => tree.withClosed path .file
  | _ => tree

/-- The tree with the file at a path, if one is there. -/
def takeContent (tree : FileTree) (path : String) : IO FileTree := do
  try
    return tree.withFile path (← IO.FS.readBinFile path)
  catch e => return takeFailure tree path e

/-- The tree with what stands at a path, without its content. -/
def takePlace (tree : FileTree) (path : String) : IO FileTree := do
  try
    let place ← IO.FS.realPath path
    if ← place.isDir then return tree.withDirectory path
    else if (← place.pathExists) && !tree.disk.hasFile path then
      let _ ← IO.FS.Handle.mk path .read
      return tree.withFile path .empty
    else return tree
  catch e => return takeFailure tree path e

/-- The variables of the environment that change something. -/
def takeEnvironment : IO (List (String × String)) :=
  Options.variableNames.filterMapM fun name => do
    return (← IO.getEnv name).map fun value => (name, value)

/-- Runs a command. -/
def perform (command : Command) : IO UInt32 := do
  let workingDirectory := (← IO.currentDir).toString
  let tree := (⟨[], workingDirectory⟩ : FileTree).withDirectory workingDirectory
  let tree ← (Command.filesRead workingDirectory command).foldlM takeContent tree
  let machine (tree : FileTree) (environment : List (String × String)) : Command.Machine Unit :=
    ⟨tree, environment, Web.unreachable⟩
  let environment ← takeEnvironment
  let tree ← (Command.placesSeen (machine tree environment) command).foldlM takePlace tree
  let r := Command.run (machine tree environment) () command
  for (path, content) in tree.filesSince r.online.tree do
    IO.FS.writeBinFile path content
  IO.print r.output
  IO.eprint r.errorOutput
  return UInt32.ofNat r.code

end VideoScript.Program

open VideoScript in
/-- Runs the command of a command line. -/
def main (args : List String) : IO UInt32 := do
  match Command.parse args with
  | .ok command => Program.perform command
  | .error e =>
    IO.eprintln ("error: " ++ e.message)
    return UInt32.ofNat Command.usageCode
