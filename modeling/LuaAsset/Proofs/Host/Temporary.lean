import LuaAsset.Host.Scratch
import LuaAsset.Proofs.Host.Keeping

/-! # Work in temporary directories

A temporary directory gets a free name (`Scratch.Made`), so writing below it and removing it keep
what was there before (`Scratch.within_beside`). -/

set_option autoImplicit false

namespace LuaAsset

namespace Scratch

open Files

theorem open_above : Path.Open above where
  nonempty := by decide
  zeroless := by decide
  unslashed := by decide

def aboveName : Bytes := text "tmp"

theorem locate_above {f : Files} {place : List Bytes} (located : f.locate above = .ok place) :
    place = [aboveName] ∧ ∃ node, f.root.find? [aboveName] = some node := by
  obtain ⟨_, _, led⟩ := (locate_eq_ok f open_above.zeroless place).mp located
  have names : Path.names above = [aboveName] := by decide
  have start : f.startOf above = [] := by
    rw [startOf, if_pos (by decide)]
  rw [names, start, follow_cons] at led
  obtain ⟨passes, led⟩ := led
  have entry := passes.entry (by decide) (by decide)
  have reached : next [] aboveName = [aboveName] := by decide
  rw [reached, follow] at led
  exact ⟨by simpa using led.symm, Option.isSome_iff_exists.mp entry⟩

theorem hexDigit_ne (n : Fin 16) : hexDigit n ≠ Ascii.slash ∧ hexDigit n ≠ 0 := by
  revert n
  decide

theorem mem_suffix {c : UInt8} {draw : Nat} (inside : c ∈ suffix draw) :
    c ≠ Ascii.slash ∧ c ≠ 0 := by
  obtain ⟨i, _, rfl⟩ := List.mem_map.mp inside
  exact hexDigit_ne ⟨_, Nat.mod_lt _ (by decide)⟩

section Naming

variable {beginning : Bytes} (slashless : Ascii.slash ∉ beginning)
  (zeroless : (0 : UInt8) ∉ beginning)

include slashless zeroless in
theorem proper_name (draw : Nat) : Path.Proper (beginning ++ suffix draw) := by
  have long : 6 ≤ (beginning ++ suffix draw).length := by
    simp [length_suffix]
  constructor
  · intro same
    simp [same] at long
  · intro inside
    obtain front | digit := List.mem_append.mp inside
    · exact slashless front
    · exact (mem_suffix digit).1 rfl
  · intro inside
    obtain front | digit := List.mem_append.mp inside
    · exact zeroless front
    · exact (mem_suffix digit).2 rfl
  · intro same
    simp [same, Path.dotName] at long
  · intro same
    simp [same, Path.dotDotName] at long

structure Made (before : Files) (name : Bytes) (after : Files) : Prop where
  proper : Path.Proper name
  holds : before.Holds above name [aboveName]
  free : before.root.find? [aboveName, name] = none
  made : after = { before with root := before.root.put [aboveName, name] (.directory []) }

theorem made_of_makeOne {f g : Files} {name : Bytes} (proper : Path.Proper name)
    (free : ¬f.pathExists (above ++ Ascii.slash :: name) = true)
    (one : f.makeOne (above ++ Ascii.slash :: name) = .ok g) : Made f name g := by
  have way := open_above.below proper
  rw [makeOne, asked_eq way] at one
  split at one
  · rename_i node present
    rw [pathExists, node?, present] at free
    simp [Except.toOption] at free
  · rename_i missing
    rw [if_neg (by simp), holder, Path.parent_below open_above proper, if_neg (by decide),
      Path.fileName_below open_above proper] at one
    split at one
    · rename_i names located
      obtain ⟨rfl, node, there⟩ := locate_above located
      cases one
      obtain ⟨holds, nothing⟩ := holds_of_noEntry open_above proper missing located there
      exact ⟨proper, holds, nothing, rfl⟩
    · cases one
  · cases one

include slashless zeroless in
theorem make_ok {tries : Nat} {m after : Machine} {path : Bytes}
    (made : make beginning tries m = .ok (path, after)) :
    ∃ name, path = above ++ Ascii.slash :: name ∧ Made m.files name after.files := by
  induction tries generalizing m with
  | zero => cases made
  | succ tries ih =>
      have proper := proper_name slashless zeroless m.drawn
      have way := open_above.below proper
      rw [make, Path.join_below open_above proper] at made
      dsimp only at made
      split at made
      · exact ih (m := ⟨m.files, m.drawn + 1⟩) made
      · split at made
        · rename_i files one
          cases made
          exact ⟨_, rfl, made_of_makeOne proper ‹_› one⟩
        · exact ih (m := ⟨m.files, m.drawn + 1⟩) made

theorem locate_temporary {f : Files} {name : Bytes} (proper : Path.Proper name)
    {place : List Bytes} (located : f.locate (above ++ Ascii.slash :: name) = .ok place) :
    place = [aboveName, name] := by
  obtain ⟨names, holds, rfl, _⟩ := (locate_below open_above proper f place).mp located
  obtain ⟨rfl, _⟩ := locate_above holds.located
  rfl

end Naming

section Work

variable {start : Files} {name path contents : Bytes} {executable : Bool}

structure Beside (start : Files) (path contents : Bytes) (executable : Bool) (f : Files) :
    Prop where
  working : f.working = start.working
  held : f.node path = .ok (.file contents executable)

variable (zeroless : (0 : UInt8) ∉ path)
  (known : start.node path = .ok (.file contents executable))

include zeroless known in
theorem Beside.changed {f : Files} {change : Node → List Bytes → Node} {names : List Bytes}
    (beside : Beside start path contents executable f) (here : Node.Local change)
    (free : start.root.find? [aboveName, name] = none) (below : [aboveName, name] <+: names) :
    Beside start path contents executable { f with root := change f.root names } := by
  obtain ⟨kept, stands, kind⟩ :=
    node_changed_below here zeroless known beside.working beside.held free below
  obtain rfl := kind.of_file
  exact ⟨beside.working, stands⟩

include zeroless known in
theorem Made.beside {f : Files} (made : Made start name f) :
    Beside start path contents executable f := by
  rw [made.made]
  exact Beside.changed zeroless known ⟨rfl, known⟩ (Node.local_put _) made.free List.prefix_rfl

theorem Made.isDirectory {f : Files} (made : Made start name f) :
    f.isDirectory (above ++ Ascii.slash :: name) = true := by
  rw [isDirectory_iff, made.made]
  refine ⟨_, node_put_self open_above made.proper made.holds ?_ _, rfl⟩
  intro old there
  have free := made.free
  rw [List.cons_append, List.nil_append, free] at there
  cases there

include zeroless known in
theorem writeEach_beside (free : start.root.find? [aboveName, name] = none)
    (proper : Path.Proper name) (entries : List (Bytes × Bytes))
    (all : ∀ entry ∈ entries, Path.Proper entry.1) {f : Files}
    (beside : Beside start path contents executable f)
    (inside : f.isDirectory (above ++ Ascii.slash :: name) = true) :
    Beside start path contents executable
      (f.writeEach (entries.map fun (entry, bytes) =>
        (Path.join (above ++ Ascii.slash :: name) entry, bytes))).2 := by
  have way := open_above.below proper
  induction entries generalizing f with
  | nil => exact beside
  | cons entry entries ih =>
      obtain ⟨entry, bytes⟩ := entry
      have first : Path.Proper entry := all _ List.mem_cons_self
      have rest := fun other later => all other (List.mem_cons_of_mem _ later)
      rw [List.map_cons]
      dsimp only
      rw [Path.join_below way first, writeEach]
      obtain ⟨g, stored, written⟩ | refused := write_below way first bytes inside
      · rw [written]
        refine ih rest ?_ (stored.isDirectory way inside)
        cases stored with
        | taken _ => exact beside
        | written executable holds loose =>
            obtain rfl := locate_temporary proper holds.located
            exact beside.changed zeroless known (Node.local_put _) free (List.prefix_append _ _)
      · rw [refused]
        exact beside

include zeroless known in
theorem removeAll_beside (free : start.root.find? [aboveName, name] = none)
    (proper : Path.Proper name) {f : Files}
    (beside : Beside start path contents executable f) :
    Beside start path contents executable
      (f.removeAll (above ++ Ascii.slash :: name)) := by
  rw [removeAll]
  split
  · rename_i names located
    obtain rfl := locate_temporary proper located
    exact beside.changed zeroless known Node.local_remove free List.prefix_rfl
  · exact beside

end Work

/-- If the work in a temporary directory keeps the entry at a path, so does `within` as a whole. -/
theorem within_beside {α : Type} {beginning : Bytes} (slashless : Ascii.slash ∉ beginning)
    (clean : (0 : UInt8) ∉ beginning) {m : Machine} {path contents : Bytes} {executable : Bool}
    (zeroless : (0 : UInt8) ∉ path) (known : m.files.node path = .ok (.file contents executable))
    {work : Bytes → Files → Except Failure α × Files}
    (works : ∀ name files, Made m.files name files →
      Beside m.files path contents executable (work (above ++ Ascii.slash :: name) files).2) :
    Beside m.files path contents executable (within beginning m work).2.files := by
  rw [within]
  split
  · exact ⟨rfl, known⟩
  · rename_i directory after found
    obtain ⟨name, rfl, made⟩ := make_ok slashless clean found
    exact removeAll_beside zeroless known made.free made.proper (works name after.files made)

end Scratch

end LuaAsset
