import TargetCatalog.Files.Path

/-!
# Access to files

The three questions that reading a definitions file asks of a file system, in any monad, and a tree
of files that answers them by itself.
-/

namespace TargetCatalog

structure FileAccess (m : Type → Type) where
  /-- Something is found at the path. -/
  isPresent : Path → m Bool
  /-- A regular file is found at the path. -/
  isFile : Path → m Bool
  /-- The content of the file at the path, if it can be read. -/
  content : Path → m (Option ByteArray)

inductive FileNode where
  | file (content : ByteArray)
  | directory

def FileNode.isDirectory : FileNode → Bool
  | file _ => false
  | directory => true

/-- Files and directories by the names on the way from the root, which is a directory itself. -/
structure FileTree where
  nodes : List (List String × FileNode) := []

namespace FileTree

def lookup (t : FileTree) (place : List String) : Option FileNode :=
  if place = [] then some .directory else t.nodes.lookup place

def addDirectory (t : FileTree) (place : List String) : FileTree :=
  let places := (List.range place.length).map fun n => place.take (n + 1)
  ⟨t.nodes ++ (places.filter fun p => (t.lookup p).isNone).map (·, .directory)⟩

def addFile (t : FileTree) (place : List String) (content : ByteArray) : FileTree :=
  let t := t.addDirectory place.dropLast
  ⟨t.nodes ++ [(place, .file content)]⟩

/-- Follows the pieces of a path from a place on. Only a directory can be gone through, and `..`
leads to the directory that it lies in. -/
def walk (t : FileTree) : List String → List String → Option (List String)
  | place, [] => some place
  | place, piece :: rest =>
    if !(t.lookup place).any FileNode.isDirectory then none
    else if piece = "" ∨ piece = "." then walk t place rest
    else if piece = ".." then walk t place.dropLast rest
    else if (t.lookup (place ++ [piece])).isSome then walk t (place ++ [piece]) rest
    else none

def resolve? (t : FileTree) (directory : List String) (p : Path) : Option (List String) :=
  if p.isEmpty then none else t.walk (if p.absolute then [] else directory) p.pieces

def find? (t : FileTree) (directory : List String) (p : Path) : Option FileNode :=
  (t.resolve? directory p).bind t.lookup

/-- The answers of a file tree to a process in a working directory. -/
def access (t : FileTree) (directory : List String) : FileAccess Id where
  isPresent p := (t.find? directory p).isSome
  isFile p :=
    match t.find? directory p with
    | some (.file _) => true
    | _ => false
  content p :=
    match t.find? directory p with
    | some (.file content) => some content
    | _ => none

end FileTree

end TargetCatalog
