import Mathlib.Tactic.SplitIfs
import LuaAsset.Proofs.Host.Paths
import LuaAsset.Host.Files

/-! # Places in a tree

Changing a tree at one place keeps the other places (`Node.Local.find?`).  The place of a path
depends on its names only (`Files.follow_unique`) and exists as long as the directories on the way
do (`Files.follow_of_directories`). -/

set_option autoImplicit false

namespace LuaAsset

namespace Node

/-- How a node may change when another one is written: a directory may get other entries. -/
def SameKind (old new : Node) : Prop :=
  new = old ∨ (old.isDirectory = true ∧ new.isDirectory = true)

theorem SameKind.of_file {contents : Bytes} {executable : Bool} {new : Node}
    (same : SameKind (.file contents executable) new) : new = .file contents executable := by
  obtain rfl | ⟨⟨⟩, _⟩ := same
  rfl

theorem SameKind.of_directory {old new : Node} (same : SameKind old new)
    (directory : old.isDirectory = true) : new.isDirectory = true := by
  obtain rfl | ⟨_, kept⟩ := same
  · exact directory
  · exact kept

theorem eq_directory {node : Node} (directory : node.isDirectory = true) :
    ∃ entries, node = .directory entries := by
  cases node with
  | directory entries => exact ⟨entries, rfl⟩
  | file | program | device => cases directory

/-! ## Looking up -/

@[simp] theorem find?_nil (node : Node) : node.find? [] = some node := rfl

theorem find?_cons (node : Node) (name : Bytes) (rest : List Bytes) :
    node.find? (name :: rest) = (node.entry? name).bind fun child => child.find? rest := by
  rw [find?]
  cases node.entry? name with
  | none => rfl
  | some child => rfl

theorem entry_directory (entries : List (Bytes × Node)) (name : Bytes) :
    Node.entry? (directory entries) name = entries.lookup name := rfl

theorem find?_append (node : Node) (above below : List Bytes) :
    node.find? (above ++ below) = (node.find? above).bind fun child => child.find? below := by
  induction above generalizing node with
  | nil => rfl
  | cons name above ih =>
      rw [List.cons_append, find?_cons, find?_cons]
      cases node.entry? name with
      | none => rfl
      | some child => exact ih child

theorem isSome_find?_of_append {node : Node} {above below : List Bytes}
    (found : (node.find? (above ++ below)).isSome) : (node.find? above).isSome := by
  rw [find?_append] at found
  cases reached : node.find? above with
  | none => simp [reached] at found
  | some child => rfl

theorem find?_below {node child : Node} {above below : List Bytes}
    (found : node.find? above = some child) (other : child.isDirectory = false)
    (further : below ≠ []) : node.find? (above ++ below) = none := by
  obtain ⟨name, rest, rfl⟩ := List.exists_cons_of_ne_nil further
  rw [find?_append, found, Option.bind_some, find?_cons]
  cases child with
  | directory entries => cases other
  | file | program | device => rfl

/-! ## Changes at one place -/

theorem lookup_filter_of_ne {name other : Bytes} (apart : other ≠ name)
    (entries : List (Bytes × Node)) :
    (entries.filter fun e => e.1 != name).lookup other = entries.lookup other := by
  induction entries with
  | nil => rfl
  | cons entry entries ih =>
      obtain ⟨first, node⟩ := entry
      by_cases same : first = name
      · have differs : (other == first) = false := by simpa [same] using apart
        rw [List.filter_cons_of_neg (by simpa using same), ih, List.lookup_cons, differs]
      · rw [List.filter_cons_of_pos (by simpa using same), List.lookup_cons, List.lookup_cons, ih]

structure Local (change : Node → List Bytes → Node) : Prop where
  outside : ∀ node name names, node.isDirectory = false → change node (name :: names) = node
  inside : ∀ entries name names, ∃ changed,
    change (.directory entries) (name :: names) = .directory changed ∧
      (∀ other, other ≠ name → changed.lookup other = entries.lookup other) ∧
      (names ≠ [] →
        changed.lookup name = (entries.lookup name).map fun child => change child names)

theorem local_put (new : Node) : Local fun node names => node.put names new where
  outside := by
    intro node name names other
    cases node with
    | directory entries => cases other
    | file | program | device => cases names <;> rfl
  inside := by
    intro entries name names
    cases names with
    | nil =>
        refine ⟨_, rfl, ?_, (absurd rfl ·)⟩
        intro other apart
        exact lookup_assign_of_ne apart new entries
    | cons next rest =>
        rw [put]
        · cases entry : entries.lookup name with
          | none => exact ⟨entries, rfl, fun _ _ => rfl, fun _ => entry⟩
          | some child =>
              refine ⟨_, rfl, ?_, fun _ => lookup_assign_self name _ entries⟩
              intro other apart
              exact lookup_assign_of_ne apart _ entries
        · exact List.cons_ne_nil _ _

theorem local_remove : Local remove where
  outside := by
    intro node name names other
    cases node with
    | directory entries => cases other
    | file | program | device => rfl
  inside := by
    intro entries name names
    cases names with
    | nil =>
        refine ⟨_, rfl, ?_, (absurd rfl ·)⟩
        intro other apart
        exact lookup_filter_of_ne apart entries
    | cons next rest =>
        rw [remove]
        · cases entry : entries.lookup name with
          | none => exact ⟨entries, rfl, fun _ _ => rfl, fun _ => entry⟩
          | some child =>
              refine ⟨_, rfl, ?_, fun _ => lookup_assign_self name _ entries⟩
              intro other apart
              exact lookup_assign_of_ne apart _ entries
        · exact List.cons_ne_nil _ _

theorem Local.find? {change : Node → List Bytes → Node} (here : Local change) {root node : Node}
    {names place : List Bytes} (apart : ¬names <+: place) (found : root.find? place = some node) :
    ∃ kept, (change root names).find? place = some kept ∧ SameKind node kept := by
  induction names generalizing root place with
  | nil => exact absurd List.nil_prefix apart
  | cons name names ih =>
      cases root with
      | file | program | device =>
          rw [here.outside _ name names rfl]
          exact ⟨node, found, .inl rfl⟩
      | directory entries =>
          obtain ⟨changed, same, others, further⟩ := here.inside entries name names
          rw [same]
          cases place with
          | nil =>
              obtain rfl := Option.some.inj found
              exact ⟨_, rfl, .inr ⟨rfl, rfl⟩⟩
          | cons first rest =>
              rw [find?_cons, entry_directory] at found ⊢
              by_cases other : first = name
              · subst other
                have below : ¬names <+: rest := fun within =>
                  apart (List.cons_prefix_cons.mpr ⟨rfl, within⟩)
                have more : names ≠ [] := by
                  rintro rfl
                  exact below List.nil_prefix
                obtain ⟨child, entry, deeper⟩ := Option.bind_eq_some_iff.mp found
                rw [further more, entry]
                exact ih below deeper
              · rw [others first other, found]
                exact ⟨node, rfl, .inl rfl⟩

theorem find?_put_self {root above : Node} {names : List Bytes} (name : Bytes) (new : Node)
    (found : root.find? names = some above) (directory : above.isDirectory = true) :
    (root.put (names ++ [name]) new).find? (names ++ [name]) = some new := by
  induction names generalizing root with
  | nil =>
      obtain rfl := Option.some.inj found
      obtain ⟨entries, rfl⟩ := eq_directory directory
      rw [List.nil_append, put, find?_cons, entry_directory, lookup_assign_self]
      rfl
  | cons first names ih =>
      rw [find?_cons] at found
      obtain ⟨child, entry, deeper⟩ := Option.bind_eq_some_iff.mp found
      cases root with
      | file | program | device => cases entry
      | directory entries =>
          obtain ⟨changed, same, _, further⟩ :=
            (local_put new).inside entries first (names ++ [name])
          rw [entry_directory] at entry
          rw [List.cons_append, same, find?_cons, entry_directory, further (by simp), entry]
          exact ih deeper

end Node

namespace Files

/-! ## Following names -/

/-- The place that a name leads to, as names with the last one first. -/
def next (reached : List Bytes) (name : Bytes) : List Bytes :=
  if name.isEmpty ∨ name = Path.dotName then reached
  else if name = Path.dotDotName then reached.drop 1
  else name :: reached

structure Passes (root : Node) (reached : List Bytes) (name : Bytes) : Prop where
  directory : ∃ node, root.find? reached.reverse = some node ∧ node.isDirectory = true
  short : name.length ≤ longestName
  entry : ¬(name.isEmpty ∨ name = Path.dotName) → name ≠ Path.dotDotName →
    (root.find? (name :: reached).reverse).isSome

theorem find?_reverse_cons (root : Node) (reached : List Bytes) (name : Bytes) :
    root.find? (name :: reached).reverse =
      (root.find? reached.reverse).bind fun node => node.entry? name := by
  rw [List.reverse_cons, Node.find?_append]
  congr 1
  funext node
  rw [Node.find?_cons]
  cases node.entry? name with
  | none => rfl
  | some child => rfl

theorem follow_cons (root : Node) (reached : List Bytes) (name : Bytes) (rest place : List Bytes) :
    follow root reached (name :: rest) = .ok place ↔
      Passes root reached name ∧ follow root (next reached name) rest = .ok place := by
  have entries := find?_reverse_cons root reached name
  cases found : root.find? reached.reverse with
  | none =>
      have stuck : ¬Passes root reached name := fun passes => by
        obtain ⟨node, same, _⟩ := passes.directory
        simp [found] at same
      simp [follow, found, stuck]
  | some node =>
      rw [found, Option.bind_some] at entries
      have passes : Passes root reached name ↔ node.isDirectory = true ∧
          name.length ≤ longestName ∧ (¬(name.isEmpty ∨ name = Path.dotName) →
            name ≠ Path.dotDotName → (node.entry? name).isSome) := by
        constructor
        · rintro ⟨⟨other, same, directory⟩, short, entry⟩
          obtain rfl := Option.some.inj (found.symm.trans same)
          exact ⟨directory, short, by rwa [entries] at entry⟩
        · rintro ⟨directory, short, entry⟩
          exact ⟨⟨node, found, directory⟩, short, by rwa [entries]⟩
      rw [passes, follow, found, next]
      cases directory : node.isDirectory with
      | false => simp [directory]
      | true =>
          by_cases short : name.length ≤ longestName
          · have fits : ¬longestName < name.length := Nat.not_lt.mpr short
            by_cases stays : name.isEmpty ∨ name = Path.dotName
            · simp only [directory, fits, short, stays]
              simp
            · by_cases up : name = Path.dotDotName
              · simp only [directory, fits, short, if_neg stays, if_pos up]
                simp [up]
              · simp only [directory, fits, short, stays, if_neg up]
                cases (node.entry? name).isSome with
                | false => simp [up]
                | true => simp
          · have long : longestName < name.length := Nat.lt_of_not_le short
            simp [directory, short, long]

theorem follow_append (root : Node) (reached names more : List Bytes) :
    follow root reached (names ++ more) =
      (follow root reached names).bind fun between => follow root between more := by
  induction names generalizing reached with
  | nil => rfl
  | cons name names ih =>
      rw [List.cons_append, follow, follow]
      cases root.find? reached.reverse with
      | none => rfl
      | some node =>
          simp only [ih]
          split_ifs <;> rfl

theorem follow_unique {root other : Node} {reached names place elsewhere : List Bytes}
    (here : follow root reached names = .ok place)
    (there : follow other reached names = .ok elsewhere) : place = elsewhere := by
  induction names generalizing reached with
  | nil =>
      cases here
      cases there
      rfl
  | cons name names ih =>
      rw [follow_cons] at here there
      exact ih here.2 there.2

theorem isSome_of_follow {root : Node} {reached names place : List Bytes}
    (led : follow root reached names = .ok place) (there : (root.find? place.reverse).isSome) :
    (root.find? reached.reverse).isSome := by
  cases names with
  | nil =>
      cases led
      exact there
  | cons name names =>
      obtain ⟨node, found, _⟩ := ((follow_cons ..).mp led).1.directory
      rw [found]
      rfl

/-- Names that resolve in one tree resolve in another that has the same directories on the way. -/
theorem follow_of_directories {start old new : Node} {reached names place : List Bytes}
    (first : follow start reached names = .ok place) (led : follow old reached names = .ok place)
    (directories : ∀ way node, (start.find? way).isSome → old.find? way = some node →
      node.isDirectory = true → ∃ kept, new.find? way = some kept ∧ kept.isDirectory = true)
    (there : (new.find? place.reverse).isSome) : follow new reached names = .ok place := by
  induction names generalizing reached with
  | nil =>
      cases led
      rfl
  | cons name names ih =>
      rw [follow_cons] at first led ⊢
      obtain ⟨begins, further⟩ := first
      obtain ⟨passes, goes⟩ := led
      have rest := ih further goes
      refine ⟨⟨?_, passes.short, ?_⟩, rest⟩
      · obtain ⟨node, found, directory⟩ := passes.directory
        obtain ⟨known, same, _⟩ := begins.directory
        exact directories reached.reverse node (by rw [same]; rfl) found directory
      · intro proper up
        rw [next, if_neg proper, if_neg up] at rest
        exact isSome_of_follow rest there

end Files

end LuaAsset
