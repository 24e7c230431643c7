import LuaAsset.Failure
import LuaAsset.Host.Path
import LuaAsset.StableSort
import LuaAsset.Value

/-! # Trees of files

A tree of directories, plain files, installed programs and devices, with a working directory.
`Files.locate` resolves a path; reading, writing, listing and making directories are built on it,
and fail with a `Refusal`. -/

set_option autoImplicit false

namespace LuaAsset

/-- Why a system call fails. -/
inductive Refusal where
  | noEntry
  | notDirectory
  | isDirectory
  | fileExists
  | nameTooLong
  | permission
  | notExecutable
  | notSupported
  | notEmpty
  | tooManyLinks
  | badDescriptor
  | noSpace
  | busy
  | invalidArgument
  deriving DecidableEq, Repr

def Refusal.wording : Refusal → Bytes
  | .noEntry => text "No such file or directory"
  | .notDirectory => text "Not a directory"
  | .isDirectory => text "Is a directory"
  | .fileExists => text "File exists"
  | .nameTooLong => text "File name too long"
  | .permission => text "Permission denied"
  | .notExecutable => text "Exec format error"
  | .notSupported => text "Operation not supported"
  | .notEmpty => text "Directory not empty"
  | .tooManyLinks => text "Too many levels of symbolic links"
  | .badDescriptor => text "Bad file descriptor"
  | .noSpace => text "No space left on device"
  | .busy => text "Device or resource busy"
  | .invalidArgument => text "Invalid argument"

inductive Device where
  | null
  | zero
  | full
  | descriptor (number : Nat)
  deriving DecidableEq, Repr

inductive Node where
  | file (contents : Bytes) (executable : Bool)
  | program (name : Bytes)
  | device (device : Device)
  | directory (entries : List (Bytes × Node))
  deriving Repr

namespace Node

instance : Inhabited Node := ⟨.directory []⟩

def isDirectory : Node → Bool
  | .directory _ => true
  | _ => false

def isRegular : Node → Bool
  | .file _ _ | .program _ => true
  | _ => false

def entry? (node : Node) (name : Bytes) : Option Node :=
  match node with
  | .directory entries => entries.lookup name
  | _ => none

def find? : Node → List Bytes → Option Node
  | node, [] => some node
  | node, name :: rest =>
      match node.entry? name with
      | some child => child.find? rest
      | none => none

def put : Node → List Bytes → Node → Node
  | _, [], new => new
  | .directory entries, [name], new => .directory (assign name new entries)
  | .directory entries, name :: rest, new =>
      match entries.lookup name with
      | some child => .directory (assign name (child.put rest new) entries)
      | none => .directory entries
  | node, _ :: _, _ => node

def remove : Node → List Bytes → Node
  | .directory entries, [name] => .directory (entries.filter fun e => e.1 != name)
  | .directory entries, name :: rest =>
      match entries.lookup name with
      | some child => .directory (assign name (remove child rest) entries)
      | none => .directory entries
  | node, _ => node

mutual

/-- The plain files of a tree with their paths. -/
def filesBelow (path : Bytes) : Node → List (Bytes × Bytes)
  | .file contents _ => [(path, contents)]
  | .program _ => [(path, [])]
  | .device _ => []
  | .directory entries => filesAmong path entries

def filesAmong (path : Bytes) : List (Bytes × Node) → List (Bytes × Bytes)
  | [] => []
  | (name, node) :: rest => node.filesBelow (Path.join path name) ++ filesAmong path rest

end

mutual

/-- All entries of a tree with their paths, directories before their entries. -/
def entriesBelow (path : Bytes) : Node → List (Bytes × Node)
  | .directory entries => (path, .directory entries) :: entriesAmong path entries
  | node => [(path, node)]

def entriesAmong (path : Bytes) : List (Bytes × Node) → List (Bytes × Node)
  | [] => []
  | (name, node) :: rest => node.entriesBelow (Path.join path name) ++ entriesAmong path rest

end

end Node

structure Files where
  root : Node
  working : List Bytes

namespace Files

def longestName : Nat := 255

def longestPath : Nat := 4095

def absoluteOf (names : List Bytes) : Bytes :=
  Ascii.slash :: (names.intersperse Path.rootName).flatten

/-- Resolves names from a directory, whose own names are given last first. -/
def follow (root : Node) : List Bytes → List Bytes → Except Refusal (List Bytes)
  | reached, [] => .ok reached
  | reached, name :: rest =>
      match root.find? reached.reverse with
      | none => .error .noEntry
      | some node =>
          if !node.isDirectory then .error .notDirectory
          else if longestName < name.length then .error .nameTooLong
          else if name.isEmpty ∨ name = Path.dotName then follow root reached rest
          else if name = Path.dotDotName then follow root (reached.drop 1) rest
          else if (node.entry? name).isSome then follow root (name :: reached) rest
          else .error .noEntry

/-- The names from the root to the entry at a path.  A path ends at its first zero byte. -/
def locate (f : Files) (path : Bytes) : Except Refusal (List Bytes) :=
  let path := upToZero path
  if path.isEmpty then .error .noEntry
  else if longestPath < path.length then .error .nameTooLong
  else
    let start := if Path.isAbsolute path then [] else f.working.reverse
    (follow f.root start (Path.names path)).map List.reverse

def node (f : Files) (path : Bytes) : Except Refusal Node :=
  match f.locate path with
  | .ok names => match f.root.find? names with
      | some node => .ok node
      | none => .error .noEntry
  | .error refusal => .error refusal

def node? (f : Files) (path : Bytes) : Option Node := (f.node path).toOption

def pathExists (f : Files) (path : Bytes) : Bool := (f.node? path).isSome

def isDirectory (f : Files) (path : Bytes) : Bool := (f.node? path).any Node.isDirectory

/-! ## Reading and writing -/

def read (f : Files) (path : Bytes) : Except Failure Bytes :=
  match f.node path with
  | .ok (.file contents _) => .ok contents
  | .ok (.program _) => .ok []
  | .ok (.device _) => .error (.statFailed path Refusal.notSupported.wording)
  | .ok (.directory _) => .error (.statFailed path Refusal.isDirectory.wording)
  | .error refusal => .error (.statFailed path refusal.wording)

/-- A path as a system call takes it: cut at the first zero byte, without trailing slashes. -/
def asked (path : Bytes) : Bytes :=
  let path := upToZero path
  let bare := (path.reverse.dropWhile (· == Ascii.slash)).reverse
  if bare.isEmpty then path.take 1 else bare

def holder (path : Bytes) : Bytes :=
  if (Path.parent path).isEmpty then Path.dotName else Path.parent path

/-- Makes one directory whose parent exists; an existing directory is no failure. -/
def makeOne (f : Files) (path : Bytes) : Except Refusal Files :=
  let path := asked path
  match f.node path with
  | .ok node => if node.isDirectory then .ok f else .error .fileExists
  | .error .noEntry =>
      if path.isEmpty then .error .noEntry
      else match f.locate (holder path) with
        | .ok names =>
            .ok { f with root := f.root.put (names ++ [Path.fileName path]) (.directory []) }
        | .error refusal => .error refusal
  | .error refusal => .error refusal

/-- The missing directories on the way to a path, outermost first; `fuel` bounds their number. -/
def missing (f : Files) : Nat → Bytes → List Bytes → Except Refusal (List Bytes)
  | 0, _, found => .ok found
  | fuel + 1, path, found =>
      let name := Path.fileName path
      let found :=
        if name = Path.dotName ∨ name = Path.dotDotName then found else path :: found
      let above := Path.parent path
      if above.isEmpty then .ok found
      else match f.node above with
        | .ok node => if node.isDirectory then .ok found else .error .notDirectory
        | .error .nameTooLong => .error .nameTooLong
        | .error _ => missing f fuel above found

/-- Makes directories in order; those made before a refusal stay. -/
def makeEach : List Bytes → Files → Except Refusal Unit × Files
  | [], f => (.ok (), f)
  | path :: rest, f =>
      match f.makeOne path with
      | .ok f => makeEach rest f
      | .error refusal => (.error refusal, f)

def makeDirectories (f : Files) (path : Bytes) : Except Refusal Unit × Files :=
  match f.node path with
  | .ok node => (if node.isDirectory then .ok () else .error .notDirectory, f)
  | .error .nameTooLong => (.error .nameTooLong, f)
  | .error _ =>
      let bare := if (Path.fileName path).isEmpty then Path.parent path else path
      match f.missing (path.length + 1) bare [] with
      | .ok found => f.makeEach found
      | .error refusal => (.error refusal, f)

/-- Makes a directory and its parents; the empty path needs none. -/
def ensureDirectory (f : Files) (path : Bytes) : Except Failure Unit × Files :=
  if path.isEmpty then (.ok (), f)
  else match f.makeDirectories path with
    | (.ok (), f) => (.ok (), f)
    | (.error refusal, f) => (.error (.directoryFailed path refusal.wording), f)

/-- Writes a file in an existing directory and keeps its mode. -/
def store (f : Files) (path contents : Bytes) : Option Files :=
  let path := upToZero path
  match f.node path with
  | .ok (.file _ executable) => match f.locate path with
      | .ok names => some { f with root := f.root.put names (.file contents executable) }
      | .error _ => none
  | .ok (.device _) => some f
  | .ok _ => none
  | .error .noEntry =>
      let name := Path.fileName path
      let above := if (Path.parent path).isEmpty then Path.dotName else Path.parent path
      if name.isEmpty ∨ !f.isDirectory above then none
      else match f.locate above with
        | .ok names => some { f with root := f.root.put (names ++ [name]) (.file contents false) }
        | .error _ => none
  | .error _ => none

/-- Writes a file and the directories above it, which stay if writing the file fails. -/
def write (f : Files) (path contents : Bytes) : Except Failure Unit × Files :=
  match f.ensureDirectory (Path.parent path) with
  | (.error failure, f) => (.error failure, f)
  | (.ok (), f) => match f.store path contents with
      | some f => (.ok (), f)
      | none => (.error (.writeFailed path), f)

/-- Writes files in order, up to the first refusal. -/
def writeEach : List (Bytes × Bytes) → Files → Except Failure Unit × Files
  | [], f => (.ok (), f)
  | (path, contents) :: rest, f =>
      match f.write path contents with
      | (.ok (), f) => writeEach rest f
      | (.error failure, f) => (.error failure, f)

/-- Adds a file and the directories above it, ignoring refusals. -/
def install (f : Files) (path contents : Bytes) (executable : Bool) : Files :=
  match f.write path contents with
  | (.error _, f) => f
  | (.ok (), f) => match f.locate path with
      | .ok names => { f with root := f.root.put names (.file contents executable) }
      | .error _ => f

def installDirectory (f : Files) (path : Bytes) : Files := (f.makeDirectories path).2

/-! ## Changing entries -/

/-- The names on the way to an existing entry, which must end in a proper name. -/
def entryNames (f : Files) (path : Bytes) : Except Refusal (List Bytes × Node) :=
  match f.locate path, f.node path with
  | .ok names, .ok node => .ok (names, node)
  | .error refusal, _ => .error refusal
  | _, .error refusal => .error refusal

def removeFile (f : Files) (path : Bytes) : Except Refusal Files := do
  let (names, node) ← f.entryNames path
  if node.isDirectory then .error .isDirectory
  else return { f with root := f.root.remove names }

def removeDirectory (f : Files) (path : Bytes) : Except Refusal Files := do
  let (names, node) ← f.entryNames path
  let name := Path.fileName (asked path)
  if name.isEmpty then .error .busy
  else if name = Path.dotName then .error .invalidArgument
  else match node with
    | .directory [] => return { f with root := f.root.remove names }
    | .directory _ => .error .notEmpty
    | _ => .error .notDirectory

/-- The place of a new entry at a path. -/
def placeFor (f : Files) (path : Bytes) : Except Refusal (List Bytes) :=
  match f.locate path with
  | .ok names => .ok names
  | .error .noEntry =>
      let path := asked path
      if path.isEmpty then .error .noEntry
      else (f.locate (holder path)).map fun names => names ++ [Path.fileName path]
  | .error refusal => .error refusal

def putEntry (f : Files) (path : Bytes) (node : Node) : Except Refusal Files := do
  return { f with root := f.root.put (← f.placeFor path) node }

def setExecutable (f : Files) (path : Bytes) (executable : Bool) : Except Refusal Files := do
  let (names, node) ← f.entryNames path
  match node with
  | .file contents _ => return { f with root := f.root.put names (.file contents executable) }
  | _ => return f

def removeAll (f : Files) (path : Bytes) : Files :=
  match f.locate path with
  | .ok names => { f with root := f.root.remove names }
  | .error _ => f

/-! ## Looking for scripts -/

def scriptExtensions : List Bytes := [text ".bytes", text ".lua", text ".luac", text ".txt"]

def isScript (path : Bytes) : Bool :=
  (Path.extension path).map Ascii.toLower ∈ scriptExtensions

/-- The plain files below a directory with their contents, ordered by path. -/
def allBelow (f : Files) (path : Bytes) : List (Bytes × Bytes) :=
  match f.node? path with
  | some (.directory entries) =>
      stableSort (fun a b => Path.lt a.1 b.1) (Node.filesAmong path entries)
  | _ => []

def scripts (f : Files) (path : Bytes) : Except Failure (List Bytes) :=
  if f.isDirectory path then .ok (((f.allBelow path).map Prod.fst).filter isScript)
  else .error (.listingFailed path)

/-! ## Showing paths -/

def existingParts (f : Files) : Bytes → List Bytes → Bytes × List Bytes
  | reached, [] => (reached, [])
  | reached, part :: rest =>
      let next := Path.join reached part
      if f.pathExists next then existingParts f next rest else (reached, part :: rest)

/-- A path whose existing part is made absolute and free of detours. -/
def canonical (f : Files) (path : Bytes) : Bytes :=
  match f.locate path with
  | .ok names => absoluteOf names
  | .error .nameTooLong => path
  | .error _ =>
      let (reached, rest) := f.existingParts [] (Path.parts path)
      let start := match f.locate reached with
        | .ok names => absoluteOf names
        | .error _ => []
      Path.normal (rest.foldl Path.join start)

/-- A path relative to a base directory, or absolute if it lies outside. -/
def shown (f : Files) (path base : Bytes) : Bytes :=
  if base.isEmpty then path
  else
    let whole := f.canonical path
    let relative := Path.relative whole (f.canonical base)
    if relative.isEmpty ∨ relative = Path.dotName
        ∨ (Path.parts relative).head? = some Path.dotDotName then whole
    else relative

end Files

end LuaAsset
