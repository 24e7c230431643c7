import LuaAsset.Bytes

/-! # Paths

The text of paths: an optional root, names between slashes, and an empty name after a trailing
slash.  Paths are resolved in `Host/Files.lean`. -/

set_option autoImplicit false

namespace LuaAsset

namespace Path

def dotName : Bytes := [Ascii.dot]

def dotDotName : Bytes := [Ascii.dot, Ascii.dot]

def rootName : Bytes := [Ascii.slash]

def isAbsolute (p : Bytes) : Bool := p.head? == some Ascii.slash

/-- The names between slashes; a trailing slash gives an empty last name. -/
def names (p : Bytes) : List Bytes :=
  let pieces := splitOn Ascii.slash p
  let inner := pieces.filter fun piece => !piece.isEmpty
  if !inner.isEmpty && pieces.getLast? == some [] then inner ++ [[]] else inner

def parts (p : Bytes) : List Bytes := if isAbsolute p then rootName :: names p else names p

def fileName (p : Bytes) : Bytes := (names p).getLast?.getD []

/-- A path without its last name; the root is its own parent. -/
def parent (p : Bytes) : Bytes :=
  let front := (p.reverse.dropWhile (· != Ascii.slash)).dropWhile (· == Ascii.slash)
  if (names p).isEmpty then p
  else if front.isEmpty && isAbsolute p then rootName
  else front.reverse

def join (directory p : Bytes) : Bytes :=
  if isAbsolute p || directory.isEmpty then p
  else if directory.getLast? == some Ascii.slash then directory ++ p
  else directory ++ Ascii.slash :: p

/-- The length of the extension: from the last dot on, unless that is the first byte. -/
def extensionLength (name : Bytes) : Nat :=
  let behind := (name.reverse.takeWhile (· != Ascii.dot)).length + 1
  if name = dotDotName ∨ name.length ≤ behind then 0 else behind

def stem (p : Bytes) : Bytes :=
  let name := fileName p
  name.take (name.length - extensionLength name)

def extension (p : Bytes) : Bytes :=
  let name := fileName p
  name.drop (name.length - extensionLength name)

def partsLt : List Bytes → List Bytes → Bool
  | _, [] => false
  | [], _ :: _ => true
  | a :: p, b :: q => bytesLt a b || (a == b && partsLt p q)

def lt (p q : Bytes) : Bool := partsLt (parts p) (parts q)

/-! ## Normal forms -/

/-- A path under construction: its names, last first, and whether a slash follows. -/
structure Draft where
  absolute : Bool
  reversed : List Bytes
  trailing : Bool

namespace Draft

def push (d : Draft) (name : Bytes) : Draft := ⟨d.absolute, name :: d.reversed, false⟩

def withSlash (d : Draft) : Draft := { d with trailing := !d.reversed.isEmpty }

/-- Removes the last name, or keeps `..` if there is none. -/
def up (d : Draft) : Draft :=
  match d.reversed with
  | [] => if d.absolute then d else d.push dotDotName
  | last :: rest =>
      if last = dotDotName then d.push dotDotName else ⟨d.absolute, rest, !rest.isEmpty⟩

def step (d : Draft) (name : Bytes) : Draft :=
  if name.isEmpty ∨ name = dotName then d.withSlash
  else if name = dotDotName then d.up
  else d.push name

def toPath (d : Draft) : Bytes :=
  let trailing := d.trailing && d.reversed.head? != some dotDotName
  let body := (d.reversed.reverse.intersperse rootName).flatten
  let whole := (if d.absolute then rootName else []) ++ body ++ (if trailing then rootName else [])
  if whole.isEmpty then dotName else whole

end Draft

def normal (p : Bytes) : Bytes :=
  if p.isEmpty then [] else ((names p).foldl Draft.step ⟨isAbsolute p, [], false⟩).toPath

def behindCommon : List Bytes → List Bytes → List Bytes × List Bytes
  | a :: p, b :: q => if a = b then behindCommon p q else (a :: p, b :: q)
  | p, q => (p, q)

/-- The number of `..` needed to leave a list of names; `none` if it climbs itself. -/
def depth (parts : List Bytes) : Int :=
  parts.foldl (fun n name =>
    if name = dotDotName then n - 1
    else if name.isEmpty ∨ name = dotName then n
    else n + 1) 0

/-- The path from a directory to another path, by their text; empty if there is none. -/
def relative (p base : Bytes) : Bytes :=
  if isAbsolute p != isAbsolute base then []
  else
    let (rest, baseRest) := behindCommon (parts p) (parts base)
    if rest.isEmpty && baseRest.isEmpty then dotName
    else
      let up := depth baseRest
      if up = 0 ∧ rest.headD [] = [] then dotName
      else if up < 0 then []
      else (List.replicate up.toNat dotDotName ++ rest).foldl join []

end Path

end LuaAsset
