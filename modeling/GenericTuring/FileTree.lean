import GenericTuring.Text.Lines
import GenericTuring.Text.Quoted

/-!
A directory tree held in memory: paths, files and directories, and the errors of the operations on
them. Relative paths start at the top of the tree. There are directories above the top, up to the root,
but nothing is known to be in them.
-/

namespace GenericTuring

/-- A path as its parts. Empty parts and single dots have been dropped, double dots are kept. -/
structure Path where
  root : String
  parts : List String
  deriving DecidableEq, Repr

namespace Path

def rootOf : List Char → String
  -- Two slashes in front are kept apart from one slash or more than two.
  | '/' :: '/' :: '/' :: _ => "/"
  | '/' :: '/' :: _ => "//"
  | '/' :: _ => "/"
  | _ => ""

def ofText (text : String) : Path where
  root := rootOf text.toList
  parts := ((Text.splitAt '/' text.toList).map String.ofList).filter fun part =>
    part != "" && part != "."

def text (p : Path) : String :=
  if p.root.isEmpty && p.parts.isEmpty then "." else p.root ++ "/".intercalate p.parts

def parent (p : Path) : Path := { p with parts := p.parts.dropLast }

/-- A null character ends a path for the system, so none may stand in it. -/
def hasNull (p : Path) : Bool := p.parts.any fun part => part.toList.contains '\x00'

end Path

inductive FileFault where
  | notFound
  | alreadyThere
  | notDirectory
  | isDirectory
  | tooLong
  /-- The path has a null character in it, and the system was not asked. -/
  | nullInPath
  deriving DecidableEq, Repr

namespace FileFault

def number? : FileFault → Option Nat
  | notFound => some 2
  | alreadyThere => some 17
  | notDirectory => some 20
  | isDirectory => some 21
  | tooLong => some 36
  | nullInPath => none

def reason : FileFault → String
  | notFound => "No such file or directory"
  | alreadyThere => "File exists"
  | notDirectory => "Not a directory"
  | isDirectory => "Is a directory"
  | tooLong => "File name too long"
  | nullInPath => "embedded null byte"

end FileFault

structure FileError where
  fault : FileFault
  path : Path
  deriving DecidableEq, Repr

def FileError.message (e : FileError) : String :=
  match e.fault.number? with
  | some number => s!"[Errno {number}] {e.fault.reason}: " ++ Text.quoted e.path.text
  | none => e.fault.reason

inductive FileNode where
  | file (bytes : List UInt8)
  | directory
  deriving DecidableEq, Repr

/-- The nodes of a tree by their way from the top. A way goes up by two dots, and only at its beginning;
the way of an absolute path begins with a slash. A directory need not be listed if something in it is. -/
structure FileTree where
  nodes : List (List String × FileNode)

namespace FileTree

def empty : FileTree := ⟨[]⟩

def endsAbove (way : List String) : Bool := way.all fun part => part == ".." || part == "/"

def up (way : List String) : List String :=
  if way = ["/"] then way else if endsAbove way then way ++ [".."] else way.dropLast

def node? (t : FileTree) (way : List String) : Option FileNode :=
  match t.nodes.lookup way with
  | some node => some node
  | none => if endsAbove way || t.nodes.any fun n => way.isPrefixOf n.1 then some .directory else none

def nameLimit : Nat := 255

def pathLimit : Nat := 4095

def follow (t : FileTree) : (way : List String) → (parts : List String) →
    Except FileFault (List String)
  | way, [] => .ok way
  | way, part :: rest =>
    match t.node? way with
    | none => .error .notFound
    | some (.file _) => .error .notDirectory
    | some .directory =>
      if nameLimit < part.utf8ByteSize then .error .tooLong
      else t.follow (if part = ".." then up way else way ++ [part]) rest

def locate (t : FileTree) (p : Path) : Except FileFault (List String) :=
  if p.hasNull then .error .nullInPath
  else if pathLimit < p.text.utf8ByteSize then .error .tooLong
  else t.follow (if p.root.isEmpty then [] else ["/"]) p.parts

def find (t : FileTree) (p : Path) : Except FileFault FileNode := do
  let way ← t.locate p
  match t.node? way with
  | some node => .ok node
  | none => .error .notFound

def isFile (t : FileTree) (p : Path) : Bool :=
  match t.find p with
  | .ok (.file _) => true
  | _ => false

def isDirectory (t : FileTree) (p : Path) : Bool :=
  match t.find p with
  | .ok .directory => true
  | _ => false

def read (t : FileTree) (p : Path) : Except FileError (List UInt8) :=
  match t.find p with
  | .ok (.file bytes) => .ok bytes
  | .ok .directory => .error ⟨.isDirectory, p⟩
  | .error fault => .error ⟨fault, p⟩

def put (t : FileTree) (way : List String) (node : FileNode) : FileTree :=
  ⟨t.nodes.filter (fun n => n.1 != way) ++ [(way, node)]⟩

def makeDirectory (t : FileTree) (p : Path) : Except FileFault FileTree := do
  let way ← t.locate p
  match t.node? way with
  | some _ => .error .alreadyThere
  | none => .ok (t.put way .directory)

def makeDirectories (t : FileTree) (root : String) : List String → Except FileError FileTree
  -- The parts are given from the last to the first.
  | [] =>
    let p : Path := ⟨root, []⟩
    match t.makeDirectory p with
    | .ok t => .ok t
    | .error fault => if t.isDirectory p then .ok t else .error ⟨fault, p⟩
  | last :: above =>
    let p : Path := ⟨root, (last :: above).reverse⟩
    match t.makeDirectory p with
    | .ok t => .ok t
    | .error .notFound =>
      match makeDirectories t root above with
      | .error e => .error e
      | .ok t =>
        match t.makeDirectory p with
        | .ok t => .ok t
        | .error fault => if t.isDirectory p then .ok t else .error ⟨fault, p⟩
    | .error fault => if t.isDirectory p then .ok t else .error ⟨fault, p⟩

def write (t : FileTree) (p : Path) (bytes : List UInt8) : Except FileError FileTree :=
  match t.locate p with
  | .error fault => .error ⟨fault, p⟩
  | .ok way =>
    match t.node? way with
    | some .directory => .error ⟨.isDirectory, p⟩
    | some (.file _) | none =>
      match t.node? way.dropLast with
      | some .directory => .ok (t.put way (.file bytes))
      | some (.file _) => .error ⟨.notDirectory, p⟩
      | none => .error ⟨.notFound, p⟩

end FileTree

end GenericTuring
