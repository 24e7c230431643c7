import LuaAsset.Host.Files

/-! # Patterns

Patterns of file names and of `case`: stars, question marks and bracketed sets, where bytes may be
quoted.  `Files.expand` lists the paths that match. -/

set_option autoImplicit false

namespace LuaAsset

abbrev Marked := List (UInt8 × Bool)

namespace Marked

def ofBytes (s : Bytes) (quoted : Bool) : Marked := s.map fun c => (c, quoted)

def toBytes (m : Marked) : Bytes := m.map Prod.fst

end Marked

def characterClass? (name : Bytes) : Option (UInt8 → Bool) :=
  let isLower (c : UInt8) : Bool := 0x61 ≤ c && c ≤ 0x7a
  let isUpper (c : UInt8) : Bool := 0x41 ≤ c && c ≤ 0x5a
  let isGraph (c : UInt8) : Bool := 0x21 ≤ c && c ≤ 0x7e
  let isAlnum (c : UInt8) : Bool := Ascii.isLetter c || Ascii.isDigit c
  [(text "alpha", Ascii.isLetter), (text "digit", Ascii.isDigit), (text "alnum", isAlnum),
    (text "lower", isLower), (text "upper", isUpper), (text "space", Ascii.isBlank),
    (text "blank", fun c => c == Ascii.space || c == Ascii.tab),
    (text "punct", fun c => isGraph c && !isAlnum c), (text "graph", isGraph),
    (text "print", fun c => isGraph c || c == Ascii.space),
    (text "cntrl", fun c => c < 0x20 || c == 0x7f), (text "xdigit", Ascii.isHexDigit)].lookup name

namespace Pattern

inductive Item where
  | byte (c : UInt8)
  | any
  | run
  | oneOf (set : UInt8 → Bool)

end Pattern

abbrev Pattern := List Pattern.Item

namespace Pattern

/-- A character class at the start of a bracket, and the rest. -/
def className? (m : Marked) : Option (Bytes × Marked) :=
  match m with
  | (Ascii.openBracket, false) :: (Ascii.colon, false) :: rest =>
      let name := rest.takeWhile fun c => Ascii.isLetter c.1
      match rest.drop name.length with
      | (Ascii.colon, _) :: (Ascii.closeBracket, _) :: rest => some (Marked.toBytes name, rest)
      | _ => none
  | _ => none

/-- The set of a bracket and the rest; `none` without a closing bracket. -/
def members : Nat → Bool → Marked → Option ((UInt8 → Bool) × Marked)
  | 0, _, _ => none
  | _, _, [] => none
  | fuel + 1, first, m@((c, quoted) :: rest) =>
      if c = Ascii.closeBracket && !quoted && !first then some (fun _ => false, rest)
      else match className? m with
        | some (name, rest) =>
            (members fuel false rest).map fun (set, rest) =>
              (fun d => (characterClass? name).any (· d) || set d, rest)
        | none =>
            match rest with
            | (Ascii.minus, false) :: (d, high) :: behind =>
                if d = Ascii.closeBracket && !high then
                  (members fuel false rest).map fun (set, rest) => (fun e => e == c || set e, rest)
                else
                  (members fuel false behind).map fun (set, rest) =>
                    (fun e => (c ≤ e && e ≤ d) || set e, rest)
            | _ => (members fuel false rest).map fun (set, rest) => (fun e => e == c || set e, rest)

/-- The set after an opening bracket, negated by an exclamation mark. -/
def bracket? (m : Marked) : Option ((UInt8 → Bool) × Marked) :=
  match m with
  | (Ascii.exclamation, false) :: rest =>
      (members (rest.length + 1) true rest).map fun (set, rest) => (fun c => !set c, rest)
  | rest => members (rest.length + 1) true rest

def read : Nat → Marked → Pattern
  | 0, _ => []
  | _, [] => []
  | fuel + 1, (c, quoted) :: rest =>
      if quoted then .byte c :: read fuel rest
      else if c = Ascii.star then .run :: read fuel rest
      else if c = Ascii.question then .any :: read fuel rest
      else if c = Ascii.openBracket then
        match bracket? rest with
        | some (set, rest) => .oneOf set :: read fuel rest
        | none => .byte c :: read fuel rest
      else if c = Ascii.backslash then
        match rest with
        | (d, _) :: rest => .byte d :: read fuel rest
        | [] => [.byte c]
      else .byte c :: read fuel rest

def ofMarked (m : Marked) : Pattern := read m.length m

/-- The remainders after each prefix that may be removed. -/
def suffixes : Bytes → List Bytes
  | [] => [[]]
  | c :: rest => (c :: rest) :: suffixes rest

def isMatch : Pattern → Bytes → Bool
  | [], s => s.isEmpty
  | .byte c :: p, s => match s with
      | d :: rest => c == d && isMatch p rest
      | [] => false
  | .any :: p, s => match s with
      | _ :: rest => isMatch p rest
      | [] => false
  | .oneOf set :: p, s => match s with
      | c :: rest => set c && isMatch p rest
      | [] => false
  | .run :: p, s => (suffixes s).any fun rest => isMatch p rest

/-- The length of the shortest or longest prefix that a pattern matches. -/
def startLength? (p : Pattern) (longest : Bool) (s : Bytes) : Option Nat :=
  let lengths := List.range (s.length + 1)
  (if longest then lengths.reverse else lengths).find? fun n => p.isMatch (s.take n)

/-- The length of the shortest or longest suffix that a pattern matches. -/
def endLength? (p : Pattern) (longest : Bool) (s : Bytes) : Option Nat :=
  let lengths := List.range (s.length + 1)
  (if longest then lengths.reverse else lengths).find? fun n => p.isMatch (s.drop (s.length - n))

/-- Whether a pattern has an unquoted special byte. -/
def isActive (m : Marked) : Bool :=
  m.any fun (c, quoted) => !quoted && (c == Ascii.star || c == Ascii.question ||
    c == Ascii.openBracket)

end Pattern

/-! ## Paths -/

def Marked.atSlashes : Marked → List Marked
  | [] => [[]]
  | (c, quoted) :: rest =>
      if c = Ascii.slash then [] :: atSlashes rest
      else match atSlashes rest with
        | [] => [[(c, quoted)]]
        | part :: parts => ((c, quoted) :: part) :: parts

namespace Files

/-- The names that a pattern may match; hidden ones only if it starts with a dot. -/
def candidates (f : Files) (path : Bytes) (hidden : Bool) : List Bytes :=
  match f.node? (if path.isEmpty then Path.dotName else path) with
  | some (.directory entries) =>
      let names := entries.map Prod.fst
      if hidden then
        (Path.dotName :: Path.dotDotName :: names).filter fun n => n.head? == some Ascii.dot
      else names.filter fun n => n.head? != some Ascii.dot
  | _ => []

def matching (f : Files) : Bytes → List Marked → List Bytes
  | path, [] => if f.pathExists path then [path] else []
  | path, part :: rest =>
      let goOn (name : Bytes) : List Bytes :=
        if rest.isEmpty then
          let whole := path ++ name
          if f.pathExists whole then [whole] else []
        else matching f (path ++ name ++ [Ascii.slash]) rest
      if Pattern.isActive part then
        let p := Pattern.ofMarked part
        let hidden := part.head?.any fun c => c.1 == Ascii.dot
        ((f.candidates path hidden).filter p.isMatch).flatMap goOn
      else goOn part.toBytes

def expand (f : Files) (m : Marked) : List Bytes :=
  stableSort bytesLt (f.matching [] m.atSlashes)

end Files

end LuaAsset
