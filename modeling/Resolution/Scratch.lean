import Resolution.Host

/-!
# A model of a program's surroundings

A tree of files, recorded output, and a service that gives prepared replies.

Files stand in the usual directories of a machine, one of which is the working directory. A path is
walked from the root if it starts with a slash and from the working directory otherwise. Every part
but the last has to lead to a directory; two dots lead to the directory above, at the root to the
root again. A path that ends with a slash means a directory. No operation makes a directory, so the
set of directories is fixed.
-/

namespace Resolution

/-- A place in the tree, named from the inside out; the root has the empty name. -/
abbrev Location := List String

structure FileTree where
  files : List (Location × ByteArray) := []

namespace FileTree

def workingDirectory : Location := ["work", "tmp"]

/-- The names of the directories in the root, below `usr` and below `var`. -/
def rootNames : List String :=
  ["bin", "boot", "dev", "etc", "home", "lib", "media", "mnt", "opt", "proc", "root", "run", "sbin",
   "srv", "sys", "tmp", "usr", "var"]

def usrNames : List String := ["bin", "include", "lib", "local", "sbin", "share", "src"]

def varNames : List String := ["cache", "lib", "local", "lock", "log", "opt", "run", "spool", "tmp"]

def isDirectory (l : Location) : Bool :=
  match l with
  | [] => true
  | [name] => rootNames.contains name
  | [name, "usr"] => usrNames.contains name
  | [name, "var"] => varNames.contains name
  | _ => l = workingDirectory

/-- What can stand at a location. The null device takes everything and holds nothing; the full
device has no room. -/
inductive Node where
  | directory
  | nullDevice
  | fullDevice
  | file (bytes : ByteArray)

def node? (t : FileTree) (l : Location) : Option Node :=
  if isDirectory l then some .directory
  else if l = ["null", "dev"] then some .nullDevice
  else if l = ["full", "dev"] then some .fullDevice
  else (t.files.lookup l).map .file

/-- The most bytes in a name. -/
def maxNameSize : Nat := 255

/-- The most bytes in a path. -/
def maxPathSize : Nat := 4095

def isDots (part : String) : Bool := part = "." || part = ".."

/-- The paths that cannot be walked at all. -/
def pathFault? (path : String) : Option FileFault :=
  if path.isEmpty then some .missing
  else if path.toList.contains '\x00' then some .nullCharacter
  else if maxPathSize < path.utf8ByteSize then some .nameTooLong
  else none

/-- The parts of a path; slashes in a row count as one. -/
def parts (path : String) : List String :=
  ((path.toList.splitOn '/').filter fun part => !part.isEmpty).map String.ofList

def start (path : String) : Location :=
  if path.toList.head? = some '/' then [] else workingDirectory

def endsWithSlash (path : String) : Bool := path.toList.getLast? = some '/'

/-- Looks a name up in a directory. -/
def lookIn (t : FileTree) (directory : Location) (name : String) :
    Except FileFault (Option Node) :=
  if maxNameSize < name.utf8ByteSize then .error .nameTooLong
  else .ok (t.node? (name :: directory))

/-- The directory to which a part leads. -/
def enter (t : FileTree) (directory : Location) (part : String) : Except FileFault Location :=
  if part = "." then .ok directory
  else if part = ".." then .ok directory.tail
  else do
    match ← t.lookIn directory part with
    | some .directory => return part :: directory
    | some _ => throw .notDirectory
    | none => throw .missing

def walk (t : FileTree) (directory : Location) : List String → Except FileFault Location
  | [] => .ok directory
  | part :: rest => do t.walk (← t.enter directory part) rest

/-- Where a path ends: at a directory that it only walks to, or at a name in a directory. -/
inductive Target where
  | directory
  | entry (directory : Location) (name : String)
  deriving DecidableEq, Repr

def target (t : FileTree) (path : String) : Except FileFault Target :=
  match pathFault? path with
  | some fault => .error fault
  | none =>
    match (parts path).getLast? with
    | none => .ok .directory
    | some last => do
      let directory ← t.walk (start path) (parts path).dropLast
      return if isDots last then .directory else .entry directory last

def readBytes (t : FileTree) (path : String) : Except FileFault ByteArray := do
  match ← t.target path with
  | .directory => throw .isDirectory
  | .entry directory name =>
    match ← t.lookIn directory name with
    | none => throw .missing
    | some .directory => throw .isDirectory
    | some node =>
      if endsWithSlash path then throw .notDirectory
      match node with
      | .file bytes => return bytes
      | _ => return .empty

/-- Replaces a file in its place or adds it at the end. -/
def put (l : Location) (bytes : ByteArray) : List (Location × ByteArray) →
    List (Location × ByteArray)
  | [] => [(l, bytes)]
  | (other, old) :: rest =>
    if other = l then (l, bytes) :: rest else (other, old) :: put l bytes rest

def writeBytes (t : FileTree) (path : String) (bytes : ByteArray) : Except FileFault FileTree := do
  match ← t.target path with
  | .directory => throw .isDirectory
  | .entry directory name =>
    if endsWithSlash path then throw .isDirectory
    match ← t.lookIn directory name with
    | some .directory => throw .isDirectory
    | some .fullDevice => throw .noSpace
    | some .nullDevice => return t
    | some (.file _) | none => return { t with files := put (name :: directory) bytes t.files }

/-- A tree with files in the working directory only. -/
def ofWorkingFiles (files : List (String × ByteArray)) : FileTree where
  files := files.map fun (name, bytes) => (name :: workingDirectory, bytes)

def workingFiles (t : FileTree) : List (String × ByteArray) :=
  t.files.filterMap fun (l, bytes) =>
    match l with
    | [] => none
    | name :: directory => if directory = workingDirectory then some (name, bytes) else none

/-- The files of the working directory that are not as they were before. -/
def changedSince (t before : FileTree) : List (String × ByteArray) :=
  t.workingFiles.filter fun entry =>
    match before.workingFiles.lookup entry.1 with
    | some bytes => bytes.data ≠ entry.2.data
    | none => true

end FileTree

structure Scratch where
  tree : FileTree := {}
  serviceKey : Option String := none
  installed : Bool := true
  /-- The replies to come; `none` is one without content. When they run out, replies are empty. -/
  replies : List (Option String) := []
  stdout : String := ""
  stderr : String := ""
  requests : List Request := []
  keys : List (Option String) := []

namespace Scratch

def read (s : Scratch) (path : String) : Except FileError ByteArray :=
  (s.tree.readBytes path).mapError (⟨·, path⟩)

def write (s : Scratch) (path text : String) : Except FileError Scratch :=
  match s.tree.writeBytes path text.toUTF8 with
  | .ok tree => .ok { s with tree }
  | .error fault => .error ⟨fault, path⟩

def connect (s : Scratch) (key : Option String) : Bool × Scratch :=
  if s.installed then (true, { s with keys := s.keys ++ [key] }) else (false, s)

def ask (s : Scratch) (request : Request) : Option String × Scratch :=
  let s := { s with requests := s.requests ++ [request] }
  match s.replies with
  | [] => (some "", s)
  | reply :: rest => (reply, { s with replies := rest })

instance : Host (StateM Scratch) where
  serviceKey := fun s => (s.serviceKey, s)
  connect key := fun s => s.connect key
  ask request := fun s => s.ask request
  readFile path := fun s => (s.read path, s)
  writeFile path text := fun s =>
    match s.write path text with
    | .ok s' => (.ok (), s')
    | .error e => (.error e, s)
  out text := fun s => ((), { s with stdout := s.stdout ++ text })
  err text := fun s => ((), { s with stderr := s.stderr ++ text })

end Scratch

end Resolution
