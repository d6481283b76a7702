import CnfSolver.Error
import CnfSolver.Text.Utf8

/-!
# Files

Reading needs two questions to be answered about paths: which bytes a file holds, and which names a
directory lists. A file tree in memory answers both as a file system would.
-/

namespace CnfSolver

structure Files where
  read : String → Except Error ByteArray
  list : String → Except Error (List String)

def Files.text (files : Files) (isEnough : List Char → Bool) (path : String) :
    Except Error (List Char) :=
  match files.read path with
  | .error e => .error e
  | .ok bytes =>
      match Text.read? isEnough bytes with
      | some text => .ok text
      | none => .error .notText

def joinPath (directory name : String) : String :=
  if directory.toList.getLast? = some '/' then directory ++ name else s!"{directory}/{name}"

/-- The files and the directories under a working directory, each at the names that lead to it. The
directories that lead to one of them need no entry of their own. -/
structure FileTree where
  files : List (List String × ByteArray)
  directories : List (List String)

namespace FileTree

/-- A place that a path can lead to. Nothing is known outside the working directory. -/
inductive Place where
  | inside (names : List String)
  | outside
  deriving DecidableEq, Repr

def bytes? (t : FileTree) (names : List String) : Option ByteArray :=
  (t.files.find? fun file => file.1 == names).map (·.2)

def isDirectory (t : FileTree) (names : List String) : Bool :=
  names.isEmpty || t.directories.any (names.isPrefixOf ·) ||
    t.files.any fun file => names.isPrefixOf file.1 && file.1 != names

def step (t : FileTree) (place : Place) (name : String) : Except FileFault Place :=
  match place with
  | .outside => if name = "" ∨ name = "." ∨ name = ".." then .ok .outside else .error .notFound
  | .inside names =>
      if !t.isDirectory names then .error .notDirectory
      else if name = "" ∨ name = "." then .ok place
      else if name = ".." then
        .ok (if names.isEmpty then .outside else .inside names.dropLast)
      else
        let names := names ++ [name]
        if t.isDirectory names || (t.bytes? names).isSome then .ok (.inside names)
        else .error .notFound

/-- Where a path leads. The parts of a path end at slashes; an empty part, as behind a slash at the
end, asks for a directory. -/
def resolve (t : FileTree) (path : String) : Except Error Place :=
  if path.toList.contains '\x00' then .error .nulInPath
  else if path = "" then .error (.file .notFound path)
  else
    let parts := (path.toList.splitOnP (· == '/')).map String.ofList
    let start := if path.toList.head? = some '/' then Place.outside else .inside []
    match parts.foldlM t.step start with
    | .ok place => .ok place
    | .error fault => .error (.file fault path)

def read (t : FileTree) (path : String) : Except Error ByteArray :=
  match t.resolve path with
  | .error e => .error e
  | .ok .outside => .error (.file .isDirectory path)
  | .ok (.inside names) =>
      match t.bytes? names with
      | some bytes => .ok bytes
      | none => .error (.file .isDirectory path)

def children (t : FileTree) (names : List String) : List String :=
  let below := (t.files.map (·.1) ++ t.directories).filter (names.isPrefixOf ·)
  (below.filterMap fun path => path[names.length]?).eraseDups

def list (t : FileTree) (path : String) : Except Error (List String) :=
  match t.resolve path with
  | .error e => .error e
  | .ok .outside => .ok []
  | .ok (.inside names) =>
      if t.isDirectory names then .ok (t.children names)
      else .error (.file .notDirectory path)

def toFiles (t : FileTree) : Files := ⟨t.read, t.list⟩

end FileTree

end CnfSolver
