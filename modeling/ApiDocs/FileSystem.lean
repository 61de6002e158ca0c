import ApiDocs.Path
import ApiDocs.Table

/-!
# Files

A tree of folders and files, and the place in it that relative paths start from. Paths are followed
piece by piece as an operating system does it: every piece before the last must lead to a folder,
also where `..` or a repeated separator comes after it.
-/

namespace ApiDocs

/-- A file or folder. The content of a file that is no text does not matter. -/
inductive FileTree where
  | text (content : String)
  | binary
  | folder (entries : List (String × FileTree))
deriving Inhabited

namespace FileTree

/-- What names lead to. -/
def find? (tree : FileTree) (names : List String) : Option FileTree :=
  match names, tree with
  | [], tree => some tree
  | name :: names, .folder entries => (Table.get? entries name).bind (find? · names)
  | _ :: _, _ => none

/-- Puts a tree where names lead to; folders on the way are made if they are missing. -/
def insert (tree : FileTree) (names : List String) (new : FileTree) : FileTree :=
  match names with
  | [] => new
  | name :: names =>
    let entries := match tree with
      | .folder entries => entries
      | _ => []
    let child := (Table.get? entries name).getD (.folder [])
    .folder (Table.set entries name (insert child names new))

mutual

/-- The names that lead to folders with a certain file, below the given names. -/
def foldersWith (file : String) (above : List String) : FileTree → List (List String)
  | .folder entries =>
    let here := match Table.get? entries file with
      | some (.text _) | some .binary => [above]
      | _ => []
    here ++ foldersWithin file above entries
  | _ => []

/-- The names that lead to folders with a certain file, below the entries of a folder. -/
def foldersWithin (file : String) (above : List String) :
    List (String × FileTree) → List (List String)
  | [] => []
  | (name, child) :: entries =>
    foldersWith file (above ++ [name]) child ++ foldersWithin file above entries

end

end FileTree

/-- The files, and the folder that relative paths start from. -/
structure FileSystem where
  root : FileTree := .folder []
  current : List String := []
deriving Inhabited

namespace FileSystem

/-! ## Following paths -/

/-- Why a path leads nowhere. -/
inductive Obstacle where
  /-- Something on the way does not exist. -/
  | missing
  /-- Something on the way is no folder, or the path is none. -/
  | other
deriving DecidableEq

/-- Paths and names must be shorter than this many bytes. -/
def pathLimit : Nat := 4096

/-- Names may not be longer than this many bytes. -/
def nameLimit : Nat := 255

/-- The pieces of a path between separators. -/
def pieces (path : Path) : List String := (Text.splitAll '/' path.text.toList).map String.ofList

/-- Where a path starts. -/
def start (fs : FileSystem) (path : Path) : List String :=
  if path.isAbsolute then [] else fs.current

/-- Whether a path is one at all. -/
def check (path : Path) : Except Obstacle Unit :=
  if path.text.isEmpty then .error .missing
  else if path.text.utf8ByteSize ≥ pathLimit || path.text.toList.contains '\x00' then .error .other
  else .ok ()

/-- Follows one piece of a path. -/
def step (fs : FileSystem) (names : List String) (piece : String) :
    Except Obstacle (List String) :=
  match fs.root.find? names with
  | some (.folder entries) =>
    if piece.isEmpty || piece = "." then .ok names
    else if piece = ".." then .ok names.dropLast
    else if piece.utf8ByteSize > nameLimit then .error .other
    else if Table.has entries piece then .ok (names ++ [piece])
    else .error .missing
  | _ => .error .other

/-- Follows pieces of a path. -/
def walk (fs : FileSystem) (names : List String) : List String → Except Obstacle (List String)
  | [] => .ok names
  | piece :: rest =>
    match fs.step names piece with
    | .ok names => fs.walk names rest
    | .error obstacle => .error obstacle

/-- The names that a path leads to. -/
def locate (fs : FileSystem) (path : Path) : Except Obstacle (List String) :=
  match check path with
  | .ok _ => fs.walk (fs.start path) (pieces path)
  | .error obstacle => .error obstacle

/-- What a path leads to. -/
def lookup? (fs : FileSystem) (path : Path) : Option FileTree :=
  (fs.locate path).toOption.bind (fs.root.find? ·)

/-! ## Questions -/

/-- Whether a path leads to a file. -/
def isFile (fs : FileSystem) (path : Path) : Bool :=
  match fs.lookup? path with
  | some (.text _) | some .binary => true
  | _ => false

/-- Whether a path leads to a folder. -/
def isFolder (fs : FileSystem) (path : Path) : Bool :=
  match fs.lookup? path with
  | some (.folder _) => true
  | _ => false

/-- The text of the file that a path leads to. -/
def readText? (fs : FileSystem) (path : Path) : Option String :=
  match fs.lookup? path with
  | some (.text content) => some content
  | _ => none

/-- The names in the folder that a path leads to, in ascending order. -/
def names (fs : FileSystem) (path : Path) : List String :=
  match fs.lookup? path with
  | some (.folder entries) => (entries.map Prod.fst).mergeSort fun a b => !(b < a)
  | _ => []

/-- The path from the root to what a path leads to. -/
def canonical? (fs : FileSystem) (path : Path) : Option Path :=
  (fs.locate path).toOption.map (Path.ofNames true)

/-! ## Changes -/

/-- The pieces of a path up to its last one, and whether separators come after that. -/
def lastPiece? (path : Path) : Option (List String × String × Bool) :=
  let all := (pieces path).reverse
  match all.dropWhile (·.isEmpty) with
  | last :: before => some (before.reverse, last, all.head? = some "")
  | [] => none

/-- The names that a new entry at a path would have. -/
def place (fs : FileSystem) (path : Path) : Except Obstacle (List String) := do
  check path
  match lastPiece? path with
  | none => .error .other
  | some (before, last, _) =>
    let folder ← fs.walk (fs.start path) before
    match fs.root.find? folder with
    | some (.folder entries) =>
      if last = "." || last = ".." || last.utf8ByteSize > nameLimit || Table.has entries last then
        .error .other
      else .ok (folder ++ [last])
    | _ => .error .other

/-- Puts a tree where names lead to. -/
def put (fs : FileSystem) (names : List String) (new : FileTree) : FileSystem :=
  { fs with root := fs.root.insert names new }

/-- Makes a folder in a folder that exists. -/
def makeFolder (fs : FileSystem) (path : Path) : Except Obstacle FileSystem :=
  (fs.place path).map fun names => fs.put names (.folder [])

/-- The result of making a folder, which may also exist already. -/
def made (fs : FileSystem) (path : Path) : Option FileSystem :=
  match fs.makeFolder path with
  | .ok fs => some fs
  | .error _ => if fs.isFolder path then some fs else none

/-- Makes a folder and the folders it lies in, of which at most `depth` may be missing. -/
def makeFoldersUpTo (path : Path) : (depth : Nat) → FileSystem → Option FileSystem
  | 0, _ => none
  | depth + 1, fs =>
    if path.text.isEmpty then some fs
    else
      match fs.makeFolder path with
      | .error .missing =>
        match path.parent? with
        | some parent => (makeFoldersUpTo parent depth fs).bind (made · path)
        | none => none
      | _ => fs.made path

/-- Makes a folder and the folders it lies in, as far as they are missing. -/
def makeFolders (fs : FileSystem) (path : Path) : Option FileSystem :=
  makeFoldersUpTo path (path.components.length + 1) fs

/-- Writes a file into a folder that exists. A file that is there already is replaced. -/
def writeFile (fs : FileSystem) (path : Path) (file : FileTree) : Option FileSystem :=
  match fs.locate path with
  | .ok names => if fs.isFile path then some (fs.put names file) else none
  | .error _ =>
    match lastPiece? path with
    | some (_, _, false) => (fs.place path).toOption.map (fs.put · file)
    | _ => none

end FileSystem

end ApiDocs
