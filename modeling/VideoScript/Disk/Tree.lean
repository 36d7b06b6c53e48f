import VideoScript.Disk.Basic
import VideoScript.Disk.Path

/-!
# A tree of files and directories

A tree holds, for each list of names from the root, a file with its bytes, a directory, or something
that is closed to the user. A path text is followed from the root or from the working directory, one
piece at a time: an empty piece or a single dot stays, two dots go up, and each piece needs a
directory to stand in. So a slash after the name of a file leads nowhere.

Reading leaves the tree alone. Writing replaces one file, and making a directory makes the missing
ones around it too.
-/

set_option autoImplicit false

namespace VideoScript

open Text Disk

/-- What stands at a place of a tree. -/
inductive FileTree.Entry where
  | file (content : ByteArray)
  | directory
  /-- Something of a kind that can be seen, but neither opened nor entered nor replaced. -/
  | closed (kind : Kind)

instance : DecidableEq FileTree.Entry
  | .file a, .file b =>
    match ByteArray.instDecidableEq a b with
    | isTrue h => isTrue (congrArg _ h)
    | isFalse h => isFalse fun he => h (FileTree.Entry.file.inj he)
  | .directory, .directory => isTrue rfl
  | .closed a, .closed b => decidable_of_iff (a = b) (by rw [FileTree.Entry.closed.injEq])
  | .file _, .directory | .file _, .closed _ | .directory, .file _ | .directory, .closed _ |
    .closed _, .file _ | .closed _, .directory => isFalse nofun

/-- A tree of files and directories with a working directory. -/
structure FileTree where
  /-- The places of the tree below the root, by the names that lead there. -/
  entries : List (List String × FileTree.Entry)
  /-- The working directory, as an absolute path. -/
  workingDirectory : String

namespace FileTree

/-- The names of a path that is made of names alone. -/
def namesOf (path : String) : List String :=
  (components path).filterMap fun
    | .name s => some s
    | _ => none

/-- What stands at a place. -/
def entry? (tree : FileTree) (names : List String) : Option Entry :=
  if names.isEmpty then some .directory else tree.entries.lookup names

/-- The tree with something at a place, in place of what stood there. -/
def put (tree : FileTree) (names : List String) (entry : Entry) : FileTree :=
  { tree with entries := (names, entry) :: tree.entries.filter fun (place, _) => place ≠ names }

/-- The greatest number of bytes in a name. -/
def maxName : Nat := 255

/-- The number of bytes from which on a path is too long. -/
def pathLimit : Nat := 4096

/-- The place that a piece of a path leads to; it need not hold anything. -/
def next (tree : FileTree) (here : List String) (piece : String) :
    Except Failure (List String) :=
  match tree.entry? here with
  | none => .error .notFound
  | some (.closed .directory) => .error .denied
  | some (.file _) | some (.closed _) => .error .notDirectory
  | some .directory =>
    if piece = "" || piece = "." then .ok here
    else if piece = ".." then .ok here.dropLast
    else if maxName < piece.utf8ByteSize then .error .nameTooLong
    else .ok (here ++ [piece])

/-- The place that pieces of a path lead to. All pieces but the last lead to something that is
there. -/
def follow (tree : FileTree) (here : List String) : List String → Except Failure (List String)
  | [] => .ok here
  | piece :: rest => do tree.follow (← tree.next here piece) rest

/-- The place that a path leads to. -/
def place (tree : FileTree) (path : String) : Except Failure (List String) :=
  if path.toList.contains '\x00' then .error .nulInName
  else if path.isEmpty then .error .notFound
  else if pathLimit ≤ path.utf8ByteSize then .error .nameTooLong
  else
    let start := if isAbsolute path then [] else namesOf tree.workingDirectory
    tree.follow start ((splitAt '/' path.toList).map .ofList)

/-- What stands at the place that a path leads to. -/
def find (tree : FileTree) (path : String) : Except Failure Entry := do
  match tree.entry? (← tree.place path) with
  | some entry => return entry
  | none => throw .notFound

/-- The kind of an entry. -/
def Entry.kind : Entry → Kind
  | .file _ => .file
  | .directory => .directory
  | .closed kind => kind

/-- What the file at a path holds. -/
def fileAt (tree : FileTree) (path : String) : Except Failure ByteArray := do
  match ← tree.find path with
  | .file content => return content
  | .directory => throw .isDirectory
  | .closed _ => throw .denied

/-- Whether what stands at a path can be opened. -/
def openAt (tree : FileTree) (path : String) : Except Failure Unit := do
  match ← tree.find path with
  | .closed _ => throw .denied
  | _ => return

/-- The answers of a tree. -/
def disk (tree : FileTree) : Disk where
  kind path := (tree.find path).map Entry.kind
  opens := tree.openAt
  read := tree.fileAt

/-- The tree with a file written at a path. The directory must be there. -/
def storeFile (tree : FileTree) (path : String) (content : ByteArray) :
    Except Failure FileTree :=
  if path.toList.contains '\x00' then .error .nulInName
  else if path.isEmpty then .error .notFound
  else if pathLimit ≤ path.utf8ByteSize then .error .nameTooLong
  else do
    let start := if isAbsolute path then [] else namesOf tree.workingDirectory
    let pieces := (splitAt '/' path.toList).map String.ofList
    let here ← tree.follow start pieces.dropLast
    let last := pieces.getLast?.getD ""
    let there ← tree.next here last
    if last = "" || last = "." || last = ".." then throw .isDirectory
    match tree.entry? there with
    | some .directory | some (.closed .directory) => throw .isDirectory
    | some (.closed _) => throw .denied
    | _ => return tree.put there (.file content)

/-- The tree with a directory made at a path, where nothing may stand. -/
def makeDirectory (tree : FileTree) (path : String) : Except Failure FileTree := do
  let path := String.ofList (path.toList.reverse.dropWhile (· = '/')).reverse
  let there ← tree.place (if path.isEmpty then "/" else path)
  match tree.entry? there with
  | some _ => throw .exists
  | none => return tree.put there .directory

/-- Makes a directory whose parent is there; one that is there already is fine. -/
def ensureDirectory (tree : FileTree) (path : String) : Except Failure FileTree :=
  match tree.makeDirectory path with
  | .ok tree => .ok tree
  | .error failure => if tree.disk.hasDirectory path then .ok tree else .error failure

/-- The tree with a directory at a path, made together with the missing ones around it. -/
def makeDirectories (tree : FileTree) (path : String) : Except Failure FileTree :=
  go tree path path.length
where
  /-- Makes a directory and at most `fuel` directories around it. -/
  go (tree : FileTree) (path : String) : Nat → Except Failure FileTree
    | 0 => if path.isEmpty then .ok tree else tree.ensureDirectory path
    | fuel + 1 =>
      if path.isEmpty then .ok tree
      else match tree.makeDirectory path with
        | .ok tree => .ok tree
        | .error .notFound =>
          match parent? path with
          | some parent => do (← go tree parent fuel).ensureDirectory path
          | none => .error .noWholeTree
        | .error failure => if tree.disk.hasDirectory path then .ok tree else .error failure

/-! ## Taking parts of a disk -/

/-- The tree with the directories around a path, where they can stand. -/
def withRoom (tree : FileTree) (path : String) : FileTree :=
  match parent? path with
  | some dir => (tree.makeDirectories dir).toOption.getD tree
  | none => tree

/-- The tree with a file at a path and the directories around it, where they can stand. -/
def withFile (tree : FileTree) (path : String) (content : ByteArray) : FileTree :=
  ((tree.withRoom path).storeFile path content).toOption.getD tree

/-- The tree with something closed at a path, where nothing stands, and the directories around
it. -/
def withClosed (tree : FileTree) (path : String) (kind : Kind) : FileTree :=
  let room := tree.withRoom path
  match room.place path with
  | .ok there => if (room.entry? there).isSome then tree else room.put there (.closed kind)
  | .error _ => tree

/-- The tree with a directory at a path, where it can stand. -/
def withDirectory (tree : FileTree) (path : String) : FileTree :=
  (tree.makeDirectories path).toOption.getD tree

/-- The files of a tree that another one lacks or holds otherwise, by their paths. -/
def filesSince (before after : FileTree) : List (String × ByteArray) :=
  after.entries.filterMap fun (names, entry) =>
    match entry with
    | .directory | .closed _ => none
    | .file content =>
      if before.entry? names = some (.file content) then none
      else some ("/" ++ "/".intercalate names, content)

end FileTree

end VideoScript
