import LuaAsset.Host.Files

/-! # Finding programs

A name without a slash is looked up in directories.  The result is an installed program, or a file
whose first line names its interpreter, which may again be such a file. -/

set_option autoImplicit false

namespace LuaAsset

namespace Search

def runnable (files : Files) (path : Bytes) : Except Refusal Node := do
  match ← files.node path with
  | .file contents true => .ok (.file contents true)
  | .program name => .ok (.program name)
  | _ => .error .permission

def findIn (files : Files) (name : Bytes) : List Bytes → Refusal → Except Refusal Bytes
  | [], refusal => .error refusal
  | directory :: rest, refusal =>
      let path := Path.join directory name
      match runnable files path with
      | .ok _ => .ok path
      | .error .permission => findIn files name rest .permission
      | .error _ => findIn files name rest refusal

def find (files : Files) (directories : List Bytes) (name : Bytes) : Except Refusal Bytes :=
  if name.isEmpty then .error .noEntry
  else if name.contains Ascii.slash then (runnable files name).map fun _ => name
  else if Files.longestName < name.length then .error .nameTooLong
  else findIn files name directories .noEntry

/-! ## Interpreters -/

/-- How much of a file is inspected for an interpreter line. -/
def headLength : Nat := 256

def isGap (c : UInt8) : Bool := c == Ascii.space || c == Ascii.tab

def endsName (c : UInt8) : Bool := isGap c || c == 0

/-- The interpreter part of a first line, which may be cut at the end of the head. -/
def interpreterPart? (contents : Bytes) : Option Bytes :=
  match (contents ++ List.replicate (headLength - contents.length) 0).take headLength with
  | Ascii.hash :: Ascii.exclamation :: rest =>
      let line := rest.takeWhile fun c => c != Ascii.lineFeed && c != 0
      if rest[line.length]? = some Ascii.lineFeed then some line
      else
        let name := rest.dropWhile isGap
        if name.any endsName then some rest.dropLast else none
  | _ => none

/-- The interpreter of a file with at most one argument. -/
def interpreterLine? (contents : Bytes) : Option (List Bytes) := do
  let line := trim isGap (← interpreterPart? contents)
  if line.isEmpty then none
  let name := line.takeWhile fun c => !endsName c
  match line.drop name.length with
  | 0 :: _ | [] => return [name]
  | rest => return [name, upToZero (rest.dropWhile isGap)]

/-- The limit for interpreters that are interpreted files themselves. -/
def mostInterpreters : Nat := 5

/-- The installed program for a path, with its arguments. -/
def loadWithin (files : Files) : Nat → Bytes → List Bytes → Except Refusal (Bytes × List Bytes)
  | 0, _, _ => .error .tooManyLinks
  | fuel + 1, path, arguments => do
      match ← (if path.isEmpty then .error .permission else runnable files path) with
      | .program name => return (name, arguments)
      | .file contents _ =>
          match interpreterLine? contents with
          | some (interpreter :: extra) =>
              loadWithin files fuel interpreter
                (interpreter :: extra ++ path :: arguments.drop 1)
          | _ => .error .notExecutable
      | _ => .error .permission

def load (files : Files) (path : Bytes) (arguments : List Bytes) :
    Except Refusal (Bytes × List Bytes) :=
  loadWithin files (mostInterpreters + 1) path arguments

end Search

end LuaAsset
