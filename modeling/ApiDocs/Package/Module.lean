import ApiDocs.Declaration.OfSource
import ApiDocs.FileSystem

/-!
# Module files

The files of a target are those that module declarations lead to from its first file. A file is
read once for each path that leads to it, where `.` and repeated separators do not make another
path.

The file of a module is given by an attribute, relative to the declaring file, or it has the name
of the module and lies in the folder of the declaring module.
-/

namespace ApiDocs

open Source

/-- A step that may fail and reports notices, which survive a failure. -/
abbrev Noting := ExceptT Failure (StateM (List Notice))

/-- Reports notices. -/
def Noting.note (notices : List Notice) : Noting Unit := modify (· ++ notices)

/-- Where a module declaration leads. -/
inductive ModuleLink where
  /-- To a file, and to the folder of the modules that are declared there. -/
  | file (path folder : Path)
  | nowhere (notice : Notice)

/-- The place where modules are declared: the file, and the folder of its modules. -/
structure ModuleContext where
  file : Path
  folder : Path

namespace ModuleLink

/-- The file of a module that an attribute gives. -/
def ofGiven (fs : FileSystem) (context : ModuleContext) (given : String) : ModuleLink :=
  let path := (context.file.parent?.getD context.folder).join given
  if fs.isFile path then .file path (path.parent?.getD ⟨""⟩)
  else .nowhere (.moduleFileNotFound path.text)

/-- The file of a module by its name. -/
def ofName (fs : FileSystem) (context : ModuleContext) (name : String) : ModuleLink :=
  let folder := context.folder.join name
  let flat := context.folder.join (name ++ ".rs")
  let nested := folder.join "mod.rs"
  if fs.isFile flat then .file flat folder
  else if fs.isFile nested then .file nested folder
  else .nowhere (.moduleWithoutFile name context.file.text)

mutual

/-- Where the module declarations in an item lead. -/
def ofItem (fs : FileSystem) (context : ModuleContext) : Item → List ModuleLink
  | ⟨attributes, kind, nested⟩ =>
    match kind with
    | .module name hasBody =>
      if isTestOnly attributes then []
      else if hasBody then ofItems fs { context with folder := context.folder.join name } nested
      else
        match givenFile? attributes with
        | some given => [ofGiven fs context given]
        | none => [ofName fs context name]
    | _ => []

/-- Where the module declarations among items lead. -/
def ofItems (fs : FileSystem) (context : ModuleContext) : List Item → List ModuleLink
  | [] => []
  | item :: items => ofItem fs context item ++ ofItems fs context items

end

/-- The file that a link leads to. -/
def context? : ModuleLink → Option ModuleContext
  | .file path folder => some ⟨path, folder⟩
  | .nowhere _ => none

/-- What is reported about a link. -/
def notices : ModuleLink → List Notice
  | .file _ _ => []
  | .nowhere notice => [notice]

end ModuleLink

/-! ## The files of a target -/

/-- Reads a source file. -/
def SourceFile.load (fs : FileSystem) (path : Path) : Except Failure SourceFile :=
  match fs.readText? path with
  | some text => SourceFile.read path.text text
  | none => .error (.unreadable path.text)

/-- The files read so far and the paths that were asked for, by their components. -/
structure ModuleWalk where
  files : List SourceFile := []
  visited : List (List Path.Component) := []

/-- A step of the walk over module files. -/
abbrev Walking := StateT ModuleWalk Noting

namespace ModuleWalk

/-- Visits a file, unless it was visited before, and then the files that its modules lead to, with
`visitBelow` for those. -/
def visitWith (fs : FileSystem) (visitBelow : List ModuleContext → Walking Unit)
    (context : ModuleContext) : Walking Unit := do
  let walk ← get
  let components := context.file.components
  if !walk.visited.contains components then
    set { walk with visited := components :: walk.visited }
    let file ← MonadExcept.ofExcept (SourceFile.load fs context.file)
    let links := ModuleLink.ofItems fs context file.content.items
    Noting.note (links.flatMap ModuleLink.notices)
    modify fun walk => { walk with files := walk.files ++ [file] }
    visitBelow (links.filterMap ModuleLink.context?)

/-- Visits files in order with the files that their modules lead to, at most `depth` deep. -/
def visitAll (fs : FileSystem) : (depth : Nat) → List ModuleContext → Walking Unit
  | 0, contexts => contexts.forM fun context => throw (.nestedTooDeep context.file.text)
  | depth + 1, contexts => contexts.forM (visitWith fs (visitAll fs depth))

end ModuleWalk

/-- How deep modules can lie: there are no more paths than this that a file can be read by. -/
def moduleDepth : Nat := Nat.pow 256 FileSystem.pathLimit

/-- The files of the target that starts from a file, in the order in which they are declared. -/
def moduleFiles (fs : FileSystem) (file : Path) : Noting (List SourceFile) := do
  let start : ModuleContext := ⟨file, file.parent?.getD ⟨""⟩⟩
  let (_, walk) ← (ModuleWalk.visitAll fs (moduleDepth + 1) [start]).run {}
  return walk.files

end ApiDocs
