/-!
# Files

What can be read by a path: the text of a file and the entries of a directory. `FileTree` is a directory that is held in
memory.
-/

namespace NodeScript

/-- Why something cannot be read. -/
inductive FileFault where
  | notFound
  | notDirectory
  | isDirectory
  | notText
  /-- Any other reason, in the words of the system. -/
  | other (message : String)
  deriving DecidableEq, Repr

/-- The message of a fault. -/
def FileFault.message : FileFault → String
  | notFound => "No such file or directory (os error 2)"
  | notDirectory => "Not a directory (os error 20)"
  | isDirectory => "Is a directory (os error 21)"
  | notText => "stream did not contain valid UTF-8"
  | other text => text

/-- An entry of a directory. -/
structure DirEntry where
  name : String
  isFile : Bool
  deriving DecidableEq, Repr

/-- What the paths of a system lead to. -/
structure Files where
  /-- The bytes of a file. -/
  read : String → Except FileFault ByteArray
  /-- The entries of a directory. -/
  list : String → Except FileFault (List DirEntry)

/-- The text of what was read, if its bytes are UTF-8. -/
def decodeText : Except FileFault ByteArray → Except FileFault String
  | .error e => .error e
  | .ok bytes => match String.fromUTF8? bytes with
    | some text => .ok text
    | none => .error .notText

/-- The text of a file. -/
def Files.readText (files : Files) (path : String) : Except FileFault String :=
  decodeText (files.read path)

/-- A file or a directory in memory. -/
inductive FileTree where
  | file (bytes : ByteArray)
  | directory (entries : List (String × FileTree))
  deriving Inhabited

namespace FileTree

/-- An empty directory. -/
def empty : FileTree := .directory []

/-- Puts an entry at the end of a way of names below a directory; directories on the way are made, and what stands in the way
is replaced. -/
def put (entry : FileTree) : List String → FileTree → FileTree
  | [], .directory entries => match entry with
    | .directory _ => .directory entries
    | _ => entry
  | [], _ => entry
  | name :: rest, tree =>
    let entries := match tree with
      | .directory entries => entries
      | .file _ => []
    match entries.lookup name with
    | some old => .directory (entries.map fun (n, t) => if n == name then (n, put entry rest old) else (n, t))
    | none => .directory (entries ++ [(name, put entry rest .empty)])

/-- The parts of a path between its slashes. -/
def parts (path : String) : List String :=
  path.splitOn "/"

/-- Follows the parts of a path from a directory, with those above it at hand. Only a directory can be gone through; an empty
part and `.` stay where they are, and `..` goes back. Above the topmost directory all directories are empty. -/
def follow : List FileTree → FileTree → List String → Except FileFault FileTree
  | _, tree, [] => .ok tree
  | _, .file _, _ :: _ => .error .notDirectory
  | above, .directory entries, name :: rest =>
    if name = "" ∨ name = "." then follow above (.directory entries) rest
    else if name = ".." then match above with
      | parent :: above => follow above parent rest
      | [] => follow [] .empty rest
    else match entries.lookup name with
      | some tree => follow (.directory entries :: above) tree rest
      | none => .error .notFound

/-- What a path leads to. The empty path leads nowhere, and a path from the root of the system starts outside the tree. -/
def find (tree : FileTree) (path : String) : Except FileFault FileTree :=
  if path = "" then .error .notFound
  else if path.startsWith "/" then follow [] .empty (parts path)
  else follow [] tree (parts path)

/-- The paths below a directory. -/
def files (tree : FileTree) : Files where
  read path := match tree.find path with
    | .ok (.file bytes) => .ok bytes
    | .ok (.directory _) => .error .isDirectory
    | .error e => .error e
  list path := match tree.find path with
    | .ok (.directory entries) => .ok (entries.map fun (name, t) => ⟨name, match t with
      | .file _ => true
      | .directory _ => false⟩)
    | .ok (.file _) => .error .notDirectory
    | .error e => .error e

end FileTree

end NodeScript
