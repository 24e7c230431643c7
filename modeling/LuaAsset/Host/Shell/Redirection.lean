import LuaAsset.Host.Shell.Expansion

/-! # Redirections

Redirections of descriptors to files, to copies of other descriptors, or to here-documents. -/

set_option autoImplicit false

namespace LuaAsset

namespace Shell

/-- A redirection with expanded words; a here-document is expanded when the redirection is made. -/
structure Redirected where
  descriptor : Nat
  direction : Direction
  target : Bytes
  document : Word

namespace Redirected

def attach (r : Redirected) (index : Nat) : Step Unit :=
  modify fun s => { s with descriptors := assign r.descriptor index s.descriptors }

def refuseToOpen {α : Type} (r : Redirected) (refusal : Refusal) : Step α :=
  let reason := match refusal with
    | .noEntry | .notDirectory => text "No such file"
    | refusal => refusal.wording
  Step.fail (text "cannot open " ++ r.target ++ text ": " ++ reason) 2

def refuseToCreate {α : Type} (r : Redirected) (refusal : Refusal) : Step α :=
  let reason := match refusal with
    | .noEntry | .notDirectory => text "Directory nonexistent"
    | refusal => refusal.wording
  Step.fail (text "cannot create " ++ r.target ++ text ": " ++ reason) 2

/-- Opens the entry at a path; descriptor nodes refer to open descriptors. -/
def openNode (r : Redirected) (names : List Bytes) (node : Node) (appending : Bool) : Step Unit := do
  match node with
  | .device (.descriptor n) =>
      match (← get).descriptors.lookup n with
      | some index => r.attach index
      | none => r.refuseToOpen .noEntry
  | .device device => do r.attach (← Step.addOpening (.device device))
  | _ => do r.attach (← Step.addOpening (.file names 0 appending))

/-- Opens a file for writing, creating or truncating it. -/
def create (r : Redirected) (emptied clobbering appending : Bool) : Step Unit := do
  let f ← Step.files
  match f.locate r.target, f.node r.target with
  | .ok _, .ok (.directory _) => r.refuseToCreate .isDirectory
  | .ok names, .ok (.file contents executable) =>
      if !clobbering then r.refuseToCreate .fileExists
      let contents := if emptied then [] else contents
      let node := Node.file contents executable
      Step.setFiles { f with root := f.root.put names node }
      r.openNode names node appending
  | .ok names, .ok node => r.openNode names node appending
  | .error .noEntry, _ =>
      if r.target.isEmpty then r.refuseToCreate .noEntry
      if r.target.getLast? = some Ascii.slash then r.refuseToCreate .isDirectory
      match f.placeFor r.target with
      | .ok names =>
          let node := Node.file [] false
          if (f.root.find? names.dropLast).any Node.isDirectory then
            Step.setFiles { f with root := f.root.put names node }
            r.openNode names node appending
          else r.refuseToCreate .notDirectory
      | .error refusal => r.refuseToCreate refusal
  | .error refusal, _ => r.refuseToCreate refusal
  | _, .error refusal => r.refuseToCreate refusal

/-- The descriptor to duplicate; `none` to close. -/
def copied? (r : Redirected) : Option (Option Nat) :=
  if r.target = [Ascii.minus] then some none
  else match r.target with
    | [c] => if Ascii.isDigit c then some (some (c.toNat - 48)) else none
    | _ => none

def perform (engine : Engine) (r : Redirected) : Step Unit := do
  match r.direction with
  | .read =>
      let f ← Step.files
      match f.locate r.target, f.node r.target with
      | .ok names, .ok node => r.openNode names node false
      | .error refusal, _ => r.refuseToOpen refusal
      | _, .error refusal => r.refuseToOpen refusal
  | .write => r.create true (!(← Step.hasOption 'C')) false
  | .overwrite => r.create true true false
  | .append => r.create false true true
  | .readWrite => r.create false true false
  | .document => do
      r.attach (← Step.addOpening (.source (.ofBytes (← textOf engine r.document))))
  | .duplicate =>
      match r.copied? with
      | some (some n) =>
          match (← get).descriptors.lookup n with
          | some index => r.attach index
          | none => Step.fail (decimal n ++ text ": " ++ Refusal.badDescriptor.wording) 2
      | _ =>
          modify fun s => { s with descriptors := s.descriptors.filter fun d => d.1 != r.descriptor }

end Redirected

section Redirecting

variable (engine : Engine)

/-- Expands the words of redirections; duplicating a non-number is a fault. -/
def expandRedirections (redirections : List Redirection) : Step (List Redirected) :=
  redirections.mapM fun r => do
    match r.direction with
    | .document => return ⟨r.descriptor, r.direction, [], r.target⟩
    | direction =>
        let expanded : Redirected := ⟨r.descriptor, direction, ← textOf engine r.target, []⟩
        if direction = .duplicate ∧ expanded.copied?.isNone then
          Step.fail (text "Syntax error: " ++ SyntaxFault.badDescriptor.wording) 2
        return expanded

def performAll (redirections : List Redirected) : Step Bool := do
  try
    redirections.forM (Redirected.perform engine)
    return true
  catch
    | .fault => return false
    | other => throw other

/-- Runs an action and restores the descriptors on every outcome. -/
def restoringDescriptors {α : Type} (body : Step α) : Step α := do
  let before := (← get).descriptors
  let restore : Step Unit := modify fun s => { s with descriptors := before }
  try
    let a ← body
    restore
    return a
  catch unwinding =>
    restore
    throw unwinding

end Redirecting

end Shell

end LuaAsset
