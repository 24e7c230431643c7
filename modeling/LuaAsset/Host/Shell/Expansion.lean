import LuaAsset.Host.Pattern
import LuaAsset.Host.Shell.Arithmetic
import LuaAsset.Host.Shell.Children

/-! # Expanding words

A word is expanded to segments, which are joined to fields, to a single text, or to a pattern. -/

set_option autoImplicit false

namespace LuaAsset

namespace Shell

inductive Segment where
  | solid (s : Bytes) (quoted : Bool)
  | loose (s : Bytes)
  | gap
  deriving DecidableEq, Repr

namespace Segment

def toText (segments : List Segment) : Bytes :=
  segments.flatMap fun segment => match segment with
    | .solid s _ | .loose s => s
    | .gap => [Ascii.space]

def toMarked (segments : List Segment) : Marked :=
  segments.flatMap fun segment => match segment with
    | .solid s quoted => Marked.ofBytes s quoted
    | .loose s => Marked.ofBytes s false
    | .gap => [(Ascii.space, false)]

end Segment

/-! ## Fields -/

/-- Fields under construction, last first; the current one is reversed. -/
structure Fields where
  done : List Marked
  current : Option Marked
  afterBlank : Bool

namespace Fields

def empty : Fields := ⟨[], none, false⟩

def close (f : Fields) (afterBlank : Bool) : Fields :=
  match f.current with
  | some field => ⟨field.reverse :: f.done, none, afterBlank⟩
  | none => f

def add (f : Fields) (m : Marked) : Fields :=
  { f with current := some (m.reverse ++ f.current.getD []), afterBlank := false }

/-- Adds a byte to a text that is split at blanks and separators. -/
def step (separators : Bytes) (f : Fields) (c : UInt8) : Fields :=
  if !separators.contains c then f.add [(c, false)]
  else if (text " \t\n").contains c then f.close true
  else if f.current.isSome then f.close false
  else if f.afterBlank then { f with afterBlank := false }
  else { f with done := [] :: f.done }

def addSegment (separators : Bytes) (f : Fields) : Segment → Fields
  | .solid s quoted => if s.isEmpty && !quoted then f else f.add (Marked.ofBytes s quoted)
  | .loose s => s.foldl (step separators) f
  | .gap => { f.close false with afterBlank := false }

def ofSegments (separators : Bytes) (segments : List Segment) : List Marked :=
  ((segments.foldl (addSegment separators) empty).close false).done.reverse

end Fields

def usualSeparators : Bytes := text " \t\n"

def separators : Step Bytes := do
  return (← Step.value? (text "IFS")).getD usualSeparators

def joint : Step Bytes := do return (← separators).take 1

def joinedBy (s : Bytes) (parts : List Bytes) : Bytes := (parts.intersperse s).flatten

/-! ## Arithmetic -/

def arithmeticFault {α : Type} (expression : Bytes) (fault : ArithmeticFault) : Step α :=
  Step.fail (text "arithmetic expression: " ++ fault.wording ++ text ": \"" ++ expression ++
    [Ascii.doubleQuote]) 2

def numberOf (name : Bytes) : Step Int64 := do
  let value := (← Step.value? name).getD []
  if value.isEmpty then return 0
  else match signedNumeral? value with
    | some n => return n
    | none => Step.illegalNumber value

/-- The value of an expression; diagnostics quote its whole text. -/
def evaluated (whole : Bytes) : Expression → Step Int64
  | .number n => return n
  | .named name => numberOf name
  | .negate e => do return -(← evaluated whole e)
  | .complement e => do return ~~~(← evaluated whole e)
  | .not e => do return BinaryOperator.ofBool ((← evaluated whole e) == 0)
  | .binary operator a b => do
      let a ← evaluated whole a
      let b ← evaluated whole b
      applied operator a b
  | .and a b => do
      if (← evaluated whole a) == 0 then return 0
      return BinaryOperator.ofBool ((← evaluated whole b) != 0)
  | .or a b => do
      if (← evaluated whole a) != 0 then return 1
      return BinaryOperator.ofBool ((← evaluated whole b) != 0)
  | .choice condition a b => do
      if (← evaluated whole condition) != 0 then evaluated whole a else evaluated whole b
  | .assign name operator e => do
      let n ← evaluated whole e
      let n ← match operator with
        | some operator => do applied operator (← numberOf name) n
        | none => pure n
      Step.setVariable name (decimalInt n.toInt)
      return n
where
  applied (operator : BinaryOperator) (a b : Int64) : Step Int64 :=
    match operator.apply a b with
    | .ok n => return n
    | .error fault => arithmeticFault whole fault

def arithmeticText (s : Bytes) : Step Bytes := do
  match Expression.ofText s with
  | .ok e => return decimalInt (← evaluated s e).toInt
  | .error fault => arithmeticFault s fault

/-! ## Parameters -/

namespace Parameter

def shown : Parameter → Bytes
  | .position n => decimal n
  | .count => text "#"
  | .all false => text "@"
  | .all true => text "*"
  | .self => text "$"
  | .last => text "?"
  | .background => text "!"
  | .flags => text "-"
  | .named name => name

/-- The value of a set parameter, with all arguments joined. -/
def value? (p : Parameter) : Step (Option Bytes) := do
  let s ← get
  match p with
  | .position 0 => return some s.name
  | .position (i + 1) => return s.arguments[i]?
  | .count => return some (decimal s.arguments.length)
  | .all _ => return some (joinedBy [Ascii.space] s.arguments)
  | .self => return some (decimal s.ownNumber)
  | .last => return some (decimal s.status)
  | .background => return s.background.map decimal
  | .flags => return some s.options
  | .named name => Step.value? name

end Parameter

/-- Reports an unset parameter under `set -u`. -/
def demandSet (p : Parameter) (value : Option Bytes) : Step Unit := do
  if value.isNone && (← Step.hasOption 'u') then
    Step.fail (p.shown ++ text ": parameter not set") 2

/-- The segments of a parameter value, after mapping its texts. -/
def valueSegments (p : Parameter) (quoted : Bool) (change : Bytes → Bytes) :
    Step (List Segment) := do
  match p, quoted with
  | .all false, true =>
      return ((← get).arguments.map fun a => Segment.solid (change a) true).intersperse .gap
  | .all _, false =>
      return ((← get).arguments.map fun a => Segment.loose (change a)).intersperse .gap
  | .all true, true =>
      return [.solid (joinedBy (← joint) ((← get).arguments.map change)) true]
  | p, quoted => do
      let value ← p.value?
      demandSet p value
      let s := change (value.getD [])
      return [if quoted then .solid s true else .loose s]

section Expanding

variable (engine : Engine)

/-- The output of a command substitution without trailing line feeds. -/
def substituted (body : Command) : Step Bytes := do
  let sink ← Step.addOpening .sink
  let status ← inChild engine (assign 1 sink (← get).descriptors) (engine.run .last body)
  announce status
  modify fun s => { s with substitutionStatus := status.value }
  let written := (← Step.collect sink).known
  return ((written.filter (· != 0)).reverse.dropWhile (· == Ascii.lineFeed)).reverse

def stripped (fromEnd longest : Bool) (pattern : Marked) (s : Bytes) : Bytes :=
  let p := Pattern.ofMarked pattern
  if fromEnd then s.take (s.length - (p.endLength? longest s).getD 0)
  else s.drop ((p.startLength? longest s).getD 0)

mutual

/-- The segments of a word; `inner` says that bare bytes are split too. -/
def segmentsOf (inner : Bool) : List Piece → Step (List Segment)
  | [] => return []
  | piece :: rest => do
      let first ← pieceSegments inner piece
      return first ++ (← segmentsOf inner rest)

def pieceSegments (inner : Bool) : Piece → Step (List Segment)
  | .literal s quoted => return [if inner && !quoted then .loose s else .solid s quoted]
  | .expansion parameter operation quoted => operated parameter quoted operation
  | .substitution body quoted => do
      let s ← substituted engine body
      return [if quoted then .solid s true else .loose s]
  | .arithmetic expression quoted => do
      let s ← arithmeticText (Segment.toText (← segmentsOf false expression))
      return [if quoted then .solid s true else .loose s]

def operated (p : Parameter) (quoted : Bool) : Operation → Step (List Segment)
  | .value => valueSegments p quoted id
  | .length => do
      let value ← p.value?
      demandSet p value
      let s := decimal (value.getD []).length
      return [if quoted then .solid s true else .loose s]
  | .strip fromEnd longest pattern => do
      let pattern := Segment.toMarked (← segmentsOf false pattern)
      valueSegments p quoted (stripped fromEnd longest pattern)
  | .malformed => Step.fail (text "Bad substitution") 2
  | .orElse substitute emptyToo word => do
      let value ← p.value?
      let isThere := match value with
        | some s => !(emptyToo && s.isEmpty)
        | none => false
      -- What is quoted is a field even where it is empty.
      let placeholder : List Segment := if quoted then [.solid [] true] else []
      match substitute with
      | .alternative =>
          let inside ← if isThere then segmentsOf (!quoted) word else pure []
          return if word.isEmpty || !isThere then placeholder ++ inside else inside
      | .use =>
          if isThere then return placeholder ++ (← valueSegments p quoted id)
          else
            let inside ← segmentsOf (!quoted) word
            return if word.isEmpty then placeholder ++ inside else inside
      | .assign =>
          if isThere then valueSegments p quoted id
          else
            let s := Segment.toText (← segmentsOf (!quoted) word)
            match p with
            | .named name => Step.setVariable name s
            | p => Step.fail (p.shown ++ text ": bad variable name") 2
            return [if quoted then .solid s true else .loose s]
      | .complain =>
          if isThere then valueSegments p quoted id
          else
            let said := Segment.toText (← segmentsOf (!quoted) word)
            let usual := text "parameter not set" ++ (if emptyToo then text " or null" else [])
            Step.fail (p.shown ++ text ": " ++ (if word.isEmpty then usual else said)) 2

end

/-! ## Words -/

def homes : List (Bytes × Bytes) :=
  [("root", "/root"), ("daemon", "/usr/sbin"), ("bin", "/bin"), ("sys", "/dev"),
    ("nobody", "/nonexistent")].map fun (user, home) => (text user, text home)

/-- The home directory for a tilde prefix; `own` is that of the plain tilde. -/
def home? (own : Option Bytes) (name : Bytes) : Option Bytes :=
  if name.isEmpty then own else homes.lookup name

/-- Expands the tilde prefix of a word. -/
def atHome (w : Word) : Step Word := do
  match w with
  | .literal (Ascii.tilde :: s) false :: rest =>
      let name := s.takeWhile (· != Ascii.slash)
      let behind := s.drop name.length
      if !behind.isEmpty ∨ rest.isEmpty then
        match home? (← Step.value? (text "HOME")) name with
        | some home => return .literal home true :: .literal behind false :: rest
        | none => return w
      else return w
  | w => return w

def textOf (w : Word) : Step Bytes := do
  return Segment.toText (← segmentsOf engine false (← atHome w))

/-- Expands a tilde at the start and after each colon. -/
def atHomes (own : Option Bytes) (startsWord endsWord : Bool) (s : Bytes) : Bytes :=
  let parts := splitOn Ascii.colon s
  let placed (part : Bytes) (i : Nat) : Bytes :=
    match part with
    | Ascii.tilde :: s =>
        let name := s.takeWhile (· != Ascii.slash)
        let behind := s.drop name.length
        let isLast := i + 1 == parts.length
        if (0 < i ∨ startsWord) ∧ (!behind.isEmpty ∨ endsWord ∨ !isLast) then
          match home? own name with
          | some home => home ++ behind
          | none => part
        else part
    | part => part
  ((parts.zipIdx.map fun (part, i) => placed part i).intersperse [Ascii.colon]).flatten

def settingText (w : Word) : Step Bytes := do
  let own ← Step.value? (text "HOME")
  let placed := w.zipIdx.map fun (piece, i) => match piece with
    | .literal s false => Piece.literal (atHomes own (i == 0) (i + 1 == w.length) s) false
    | piece => piece
  return Segment.toText (← segmentsOf engine false placed)

def patternOf (w : Word) : Step Pattern := do
  return .ofMarked (Segment.toMarked (← segmentsOf engine false (← atHome w)))

/-- The fields of a word after splitting and pathname expansion. -/
def fieldsOf (w : Word) : Step (List Bytes) := do
  let segments ← segmentsOf engine false (← atHome w)
  let fields := Fields.ofSegments (← separators) segments
  if ← Step.hasOption 'f' then return fields.map Marked.toBytes
  let files ← Step.files
  return fields.flatMap fun field =>
    if Pattern.isActive field then
      match files.expand field with
      | [] => [field.toBytes]
      | paths => paths
    else [field.toBytes]

end Expanding

end Shell

end LuaAsset
