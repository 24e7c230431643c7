import LuaAsset.Bytes

/-! # Command scripts

The abstract syntax of command scripts.  `SyntaxFault` lists the syntax errors. -/

set_option autoImplicit false

namespace LuaAsset

namespace Shell

inductive Parameter where
  | position (index : Nat)
  | count
  | all (joined : Bool)
  | self
  | last
  | background
  | flags
  | named (name : Bytes)
  deriving DecidableEq, Repr

/-- The alternative for an unset or set parameter. -/
inductive Substitute where
  | use
  | assign
  | complain
  | alternative
  deriving DecidableEq, Repr

inductive Direction where
  | read
  | readWrite
  | write
  | overwrite
  | append
  | duplicate
  | document
  deriving DecidableEq, Repr

mutual

inductive Piece where
  | literal (text : Bytes) (quoted : Bool)
  | expansion (parameter : Parameter) (operation : Operation) (quoted : Bool)
  | substitution (body : Command) (quoted : Bool)
  | arithmetic (expression : List Piece) (quoted : Bool)

inductive Operation where
  | value
  | length
  | orElse (substitute : Substitute) (emptyToo : Bool) (word : List Piece)
  | strip (fromEnd longest : Bool) (pattern : List Piece)
  | malformed

structure Redirection where
  descriptor : Nat
  direction : Direction
  target : List Piece

inductive Command where
  | simple (line : Nat) (assignments : List (Bytes × List Piece)) (words : List (List Piece))
      (redirections : List Redirection)
  | negation (command : Command)
  | pipeline (parts : List Command)
  | both (first second : Command)
  | either (first second : Command)
  | sequence (commands : List Command)
  | background (command : Command)
  | subshell (line : Nat) (body : Command) (redirections : List Redirection)
  | redirected (line : Nat) (body : Command) (redirections : List Redirection)
  | choice (condition consequence : Command) (otherwise : Command)
  | loop (whileFailing : Bool) (condition body : Command)
  | each (line : Nat) (name : Bytes) (values : List (List Piece)) (body : Command)
  | select (line : Nat) (subject : List Piece) (branches : List (List (List Piece) × Command))
  | define (line : Nat) (name : Bytes) (body : Command)

end

instance : Inhabited Command := ⟨.sequence []⟩

abbrev Word := List Piece

namespace Command

def nothing : Command := .sequence []

def ofList : List Command → Command
  | [command] => command
  | commands => .sequence commands

end Command

def isNameByte (c : UInt8) : Bool := Ascii.isLetter c || Ascii.isDigit c || c == Ascii.underscore

def isName (s : Bytes) : Bool :=
  match s with
  | [] => false
  | c :: rest => isNameByte c && !Ascii.isDigit c && rest.all isNameByte

namespace Word

/-- The bytes of a word without quotes and expansions. -/
def bare? : Word → Option Bytes
  | [.literal s false] => some s
  | _ => none

def joined : Word → Word
  | [] => []
  | piece :: rest =>
      match piece, joined rest with
      | .literal s quoted, .literal t alike :: rest =>
          if quoted = alike then .literal (s ++ t) quoted :: rest
          else .literal s quoted :: .literal t alike :: rest
      | piece, rest => piece :: rest

/-- A word that is an assignment: the name and the value. -/
def assignment? : Word → Option (Bytes × Word)
  | .literal s false :: rest =>
      let name := s.takeWhile isNameByte
      match s.drop name.length with
      | Ascii.equals :: value =>
          if isName name then
            some (name, if value.isEmpty then rest else .literal value false :: rest)
          else none
      | _ => none
  | _ => none

/-- The literal bytes of a word without quotes. -/
def literalText (w : Word) : Bytes :=
  w.flatMap fun piece => match piece with
    | .literal s _ => s
    | _ => []

def isQuoted (w : Word) : Bool :=
  w.any fun piece => match piece with
    | .literal _ quoted => quoted
    | .expansion _ _ quoted => quoted
    | .substitution _ quoted => quoted
    | .arithmetic _ quoted => quoted

end Word

/-! ## Faults -/

inductive SyntaxFault where
  | unterminatedQuote
  | braceMissing
  | parenthesesMissing
  | backquoteMissing
  | badLoopVariable
  | badFunctionName
  | badDescriptor
  | unexpected (found : Bytes) (expected : Option Bytes)
  deriving DecidableEq, Repr

def SyntaxFault.wording : SyntaxFault → Bytes
  | .unterminatedQuote => text "Unterminated quoted string"
  | .braceMissing => text "Missing '\x7d'"
  | .parenthesesMissing => text "Missing '))'"
  | .backquoteMissing => text "EOF in backquote substitution"
  | .badLoopVariable => text "Bad for loop variable"
  | .badFunctionName => text "Bad function name"
  | .badDescriptor => text "Bad fd number"
  | .unexpected found none => found ++ text " unexpected"
  | .unexpected found (some expected) =>
      found ++ text " unexpected (expecting " ++ expected ++ text ")"

end Shell

end LuaAsset
