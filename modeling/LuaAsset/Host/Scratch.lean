import LuaAsset.Host.Files

/-! # Temporary directories

`Scratch.within` runs an action in a directory with a fresh name and removes the directory
afterwards.  Names that are taken are skipped, up to a number of attempts. -/

set_option autoImplicit false

namespace LuaAsset

structure Machine where
  files : Files
  drawn : Nat

namespace Scratch

def above : Bytes := text "/tmp"

def attempts : Nat := 16

def suffix (draw : Nat) : Bytes :=
  (List.range 6).map fun i => hexDigit (draw / 16 ^ (5 - i) % 16)

theorem length_suffix (draw : Nat) : (suffix draw).length = 6 := by
  simp [suffix]

/-- Makes a directory under the first free name. -/
def make (beginning : Bytes) : Nat → Machine → Except Failure (Bytes × Machine)
  | 0, _ => .error (.temporaryFailed above)
  | tries + 1, m =>
      let path := Path.join above (beginning ++ suffix m.drawn)
      let m : Machine := { m with drawn := m.drawn + 1 }
      if m.files.pathExists path then make beginning tries m
      else match m.files.makeOne path with
        | .ok files => .ok (path, { m with files })
        | .error _ => make beginning tries m

/-- Runs an action in a temporary directory, which is removed on every outcome. -/
def within {α : Type} (beginning : Bytes) (m : Machine)
    (work : Bytes → Files → Except Failure α × Files) : Except Failure α × Machine :=
  match make beginning attempts m with
  | .error failure => (.error failure, { m with drawn := m.drawn + attempts })
  | .ok (path, m) =>
      let (outcome, files) := work path m.files
      (outcome, { m with files := files.removeAll path })

end Scratch

end LuaAsset
