import LuaAsset.Host.Processes

/-! # Running commands

`Commands.run` looks a program up by name, starts it on empty input, and collects its two output
channels and its exit code.  Only `Main` refers to it: decoders and tools take the runner as a
parameter (`Workplace.run`), and the theorems about them hold for every runner. -/

set_option autoImplicit false

namespace LuaAsset

namespace Commands

def searchPath : List Bytes := [text "/usr/local/bin", text "/usr/bin", text "/bin"]

def environment : Environment :=
  [(text "PATH", (searchPath.intersperse [Ascii.colon]).flatten)]

inductive Result where
  | notStarted (reason : Bytes)
  | ended (code : Int) (output errors : Bytes)
  deriving DecidableEq, Repr

/-- The exit code; `none` if the program was not started. -/
def Result.code : Result → Int
  | .notStarted _ => -1
  | .ended code _ _ => code

def Result.output : Result → Bytes
  | .notStarted _ => []
  | .ended _ output _ => output

abbrev Runner := List Bytes → Files → Result × Files

def openings : Array Shell.Opening := #[.source .empty, .sink, .sink]

def starter (files : Files) : Shell.State :=
  { Process.newLocal [] environment [(0, 0), (1, 1), (2, 2)] files.working 1 [] [] with
    session := ⟨files, openings, [], 0, 1, [], [], none⟩ }

/-- Runs a command to its end and collects its output. -/
def collected (arguments : List Bytes) :
    Shell.Step (Except Refusal (Shell.Status × Bytes × Bytes)) := do
  match Search.find (← Shell.Step.files) searchPath (arguments.headD []) with
  | .error refusal => return .error refusal
  | .ok path =>
      match ← Process.launch (Process.engine Process.depth) path arguments environment with
      | .error refusal => return .error refusal
      | .ok status =>
          let output ← Shell.Step.collect 1
          let errors ← Shell.Step.collect 2
          return .ok (status, output.known, errors.known)

def run : Runner := fun arguments files =>
  match arguments with
  | [] => (.notStarted (text "Empty argv"), files)
  | name :: _ =>
      let left (s : Shell.State) : Files := { s.session.files with working := files.working }
      match collected (arguments.map upToZero) (starter files) with
      | .ok (.ok (status, output, errors)) s => (.ended status.value output errors, left s)
      | .ok (.error refusal) s =>
          (.notStarted (text "posix_spawnp(" ++ name ++ text ") failed: " ++ refusal.wording),
            left s)
      | .error _ s => (.ended 1 [] [], left s)

/-! ## The usual tree -/

def system : List (Bytes × Node) :=
  let programs : Node := .directory (Program.names.map fun name => (name, .program name))
  let devices : List (Bytes × Node) :=
    [("null", .null), ("zero", .zero), ("full", .full), ("stdin", .descriptor 0),
      ("stdout", .descriptor 1), ("stderr", .descriptor 2)].map
      fun (name, device) => (text name, .device device)
  [(text "usr", .directory [(text "bin", programs)]), (text "bin", programs),
    (text "dev", .directory devices), (text "tmp", .directory [])]

end Commands

end LuaAsset
