import LuaAsset.Proofs.Host.Trees

/-! # Frame lemmas for files

Writing or removing an entry keeps the entries at other paths (`Files.node_put_apart`,
`Files.node_changed_below`).  `Files.Stored` describes storing a file: it can be read back, and
other entries are kept. -/

set_option autoImplicit false

namespace LuaAsset

namespace Files

open Node (SameKind Local)

/-! ## Resolving a path -/

def startOf (f : Files) (path : Bytes) : List Bytes :=
  if Path.isAbsolute path then [] else f.working.reverse

theorem locate_eq (f : Files) {path : Bytes} (zeroless : (0 : UInt8) ∉ path) (nonempty : path ≠ [])
    (short : path.length ≤ longestPath) :
    f.locate path =
      (follow f.root (f.startOf path) (Path.names path)).map List.reverse := by
  rw [locate, upToZero_of_notMem zeroless, if_neg (by simpa using nonempty),
    if_neg (Nat.not_lt.mpr short), startOf]

theorem locate_too_long (f : Files) {path : Bytes} (zeroless : (0 : UInt8) ∉ path)
    (long : longestPath < path.length) : f.locate path = .error .nameTooLong := by
  have nonempty : path ≠ [] := by
    rintro rfl
    cases long
  rw [locate, upToZero_of_notMem zeroless, if_neg (by simpa using nonempty), if_pos long]

theorem locate_eq_ok (f : Files) {path : Bytes} (zeroless : (0 : UInt8) ∉ path)
    (place : List Bytes) :
    f.locate path = .ok place ↔ path ≠ [] ∧ path.length ≤ longestPath ∧
      follow f.root (f.startOf path) (Path.names path) = .ok place.reverse := by
  by_cases nonempty : path = []
  · subst nonempty
    simp [locate, upToZero]
  · by_cases short : path.length ≤ longestPath
    · rw [locate_eq f zeroless nonempty short]
      cases follow f.root (f.startOf path) (Path.names path) with
      | error refusal => simp [Except.map]
      | ok reached => simp [Except.map, nonempty, short, List.reverse_eq_iff]
    · simp [locate_too_long f zeroless (Nat.lt_of_not_le short), short]

/-- Where a path leads does not depend on the tree. -/
theorem locate_unique (f g : Files) {path : Bytes} (zeroless : (0 : UInt8) ∉ path)
    {place elsewhere : List Bytes} (same : f.working = g.working)
    (here : f.locate path = .ok place) (there : g.locate path = .ok elsewhere) :
    place = elsewhere := by
  obtain ⟨_, _, led⟩ := (locate_eq_ok f zeroless place).mp here
  obtain ⟨_, _, other⟩ := (locate_eq_ok g zeroless elsewhere).mp there
  rw [startOf, ← same, ← startOf] at other
  exact List.reverse_inj.mp (follow_unique led other)

theorem node_eq_ok (f : Files) (path : Bytes) (node : Node) :
    f.node path = .ok node ↔
      ∃ place, f.locate path = .ok place ∧ f.root.find? place = some node := by
  rw [Files.node]
  cases f.locate path with
  | error refusal => simp
  | ok place =>
      cases found : f.root.find? place with
      | none => simp [found]
      | some other => simp [found]

theorem isDirectory_iff (f : Files) (path : Bytes) :
    f.isDirectory path = true ↔ ∃ node, f.node path = .ok node ∧ node.isDirectory = true := by
  rw [isDirectory, node?]
  cases f.node path with
  | error refusal => simp [Except.toOption]
  | ok node => simp [Except.toOption]

/-! ## Names of a directory -/

section Below

variable {directory name : Bytes} (way : Path.Open directory) (proper : Path.Proper name)

include proper in
theorem next_proper (reached : List Bytes) : next reached name = name :: reached := by
  rw [next, if_neg, if_neg proper.notDotDot]
  simp [proper.nonempty, proper.notDot]

include proper in
theorem follow_name (root : Node) (above place : List Bytes) :
    follow root above.reverse [name] = .ok place ↔
      (∃ node, root.find? above = some node ∧ node.isDirectory = true) ∧
        name.length ≤ longestName ∧ (root.find? (above ++ [name])).isSome ∧
        place = name :: above.reverse := by
  have ownName : ¬(name.isEmpty ∨ name = Path.dotName) := by
    simp [proper.nonempty, proper.notDot]
  rw [follow_cons, next_proper proper, follow]
  constructor
  · rintro ⟨⟨directory, short, entry⟩, led⟩
    have there := entry ownName proper.notDotDot
    rw [List.reverse_cons, List.reverse_reverse] at there
    rw [List.reverse_reverse] at directory
    cases led
    exact ⟨directory, short, there, rfl⟩
  · rintro ⟨directory, short, there, rfl⟩
    refine ⟨⟨by rwa [List.reverse_reverse], short, fun _ _ => ?_⟩, rfl⟩
    rwa [List.reverse_cons, List.reverse_reverse]

structure Holds (f : Files) (directory name : Bytes) (above : List Bytes) : Prop where
  located : f.locate directory = .ok above
  inside : ∃ node, f.root.find? above = some node ∧ node.isDirectory = true
  shortName : name.length ≤ longestName
  shortPath : (directory ++ Ascii.slash :: name).length ≤ longestPath

include way proper in
theorem locate_join (f : Files) (short : (directory ++ Ascii.slash :: name).length ≤ longestPath) :
    f.locate (directory ++ Ascii.slash :: name) =
      (f.locate directory).bind fun above =>
        (follow f.root above.reverse [name]).map List.reverse := by
  have shorter : directory.length ≤ longestPath := by
    rw [List.length_append] at short
    omega
  have start : f.startOf (directory ++ Ascii.slash :: name) = f.startOf directory := by
    rw [startOf, Path.isAbsolute_below way, startOf]
  rw [locate_eq f (way.below proper).zeroless (way.below proper).nonempty short,
    locate_eq f way.zeroless way.nonempty shorter, Path.names_below way proper, follow_append,
    start]
  cases follow f.root (f.startOf directory) (Path.names directory) with
  | error refusal => rfl
  | ok between => simp [Except.bind, Except.map]

include way proper in
theorem locate_below (f : Files) (place : List Bytes) :
    f.locate (directory ++ Ascii.slash :: name) = .ok place ↔
      ∃ above, f.Holds directory name above ∧ place = above ++ [name] ∧
        (f.root.find? place).isSome := by
  by_cases short : (directory ++ Ascii.slash :: name).length ≤ longestPath
  · rw [locate_join way proper f short]
    constructor
    · intro led
      cases found : f.locate directory with
      | error refusal => simp [found, Except.bind] at led
      | ok above =>
          rw [found, Except.bind] at led
          cases last : follow f.root above.reverse [name] with
          | error refusal => simp [last, Except.map] at led
          | ok reached =>
              obtain ⟨inside, shortName, there, rfl⟩ := (follow_name proper ..).mp last
              simp only [last, Except.map, List.reverse_cons, List.reverse_reverse,
                Except.ok.injEq] at led
              subst led
              exact ⟨above, ⟨found, inside, shortName, short⟩, rfl, there⟩
    · rintro ⟨above, holds, rfl, there⟩
      have last := (follow_name proper f.root above _).mpr
        ⟨holds.inside, holds.shortName, there, rfl⟩
      simp [holds.located, Except.bind, last, Except.map]
  · have long := locate_too_long f (way.below proper).zeroless (Nat.lt_of_not_le short)
    rw [long]
    constructor
    · rintro ⟨⟩
    · rintro ⟨above, holds, _⟩
      exact absurd holds.shortPath short

include way proper in
theorem holds_of_noEntry {f : Files} {above : List Bytes}
    (missing : f.node (directory ++ Ascii.slash :: name) = .error .noEntry)
    (found : f.locate directory = .ok above) {node : Node}
    (there : f.root.find? above = some node) :
    f.Holds directory name above ∧ f.root.find? (above ++ [name]) = none := by
  have refused {refusal : Refusal}
      (stuck : f.locate (directory ++ Ascii.slash :: name) = .error refusal) :
      refusal = .noEntry := by
    rw [Files.node, stuck] at missing
    exact Except.error.inj missing
  have shortPath : (directory ++ Ascii.slash :: name).length ≤ longestPath := by
    refine Nat.le_of_not_lt fun long => ?_
    have := refused (locate_too_long f (way.below proper).zeroless long)
    cases this
  have stuck (refusal : Refusal) (last : follow f.root above.reverse [name] = .error refusal) :
      refusal = .noEntry :=
    refused (by rw [locate_join way proper f shortPath, found, Except.bind, last]; rfl)
  have isDirectory : node.isDirectory = true := by
    cases kind : node.isDirectory with
    | true => rfl
    | false =>
        have := stuck .notDirectory (by
          rw [follow, List.reverse_reverse, there]
          simp [kind])
        cases this
  have shortName : name.length ≤ longestName := by
    refine Nat.le_of_not_lt fun long => ?_
    have := stuck .nameTooLong (by
      rw [follow, List.reverse_reverse, there]
      simp [isDirectory, long])
    cases this
  have holds : f.Holds directory name above :=
    ⟨found, ⟨node, there, isDirectory⟩, shortName, shortPath⟩
  refine ⟨holds, ?_⟩
  cases entry : f.root.find? (above ++ [name]) with
  | none => rfl
  | some node =>
      have present : f.node (directory ++ Ascii.slash :: name) = .ok node :=
        (node_eq_ok ..).mpr ⟨_, (locate_below way proper f _).mpr
          ⟨above, holds, rfl, by rw [entry]; rfl⟩, entry⟩
      rw [present] at missing
      cases missing

end Below

/-! ## Entries at other paths -/

/-- A change at a place off the way of a path keeps what the path leads to. -/
theorem node_changed {change : Node → List Bytes → Node} (here : Local change)
    {start f : Files} {names : List Bytes} {path : Bytes} {first node : Node}
    (zeroless : (0 : UInt8) ∉ path) (known : start.node path = .ok first)
    (same : f.working = start.working) (held : f.node path = .ok node)
    (apart : ∀ way found, (start.root.find? way).isSome → f.root.find? way = some found →
      (found.isDirectory = true ∨ f.locate path = .ok way) → ¬names <+: way) :
    ∃ kept, ({ f with root := change f.root names } : Files).node path = .ok kept ∧
      SameKind node kept := by
  obtain ⟨place, located, found⟩ := (node_eq_ok ..).mp held
  obtain ⟨firstPlace, firstLocated, firstFound⟩ := (node_eq_ok ..).mp known
  obtain ⟨nonempty, short, led⟩ := (locate_eq_ok f zeroless place).mp located
  obtain rfl := locate_unique f start zeroless same located firstLocated
  obtain ⟨_, _, begun⟩ := (locate_eq_ok start zeroless place).mp firstLocated
  rw [startOf, ← same, ← startOf] at begun
  obtain ⟨kept, there, kind⟩ :=
    here.find? (apart place node (by rw [firstFound]; rfl) found (.inr located)) found
  refine ⟨kept, (node_eq_ok ..).mpr ⟨place, ?_, there⟩, kind⟩
  refine (locate_eq_ok _ zeroless _).mpr ⟨nonempty, short, ?_⟩
  -- the way is followed anew: its directories are kept, and its end is there
  refine follow_of_directories begun led ?_ ?_
  · intro way node was found directory
    obtain ⟨kept, there, kind⟩ := here.find? (apart way node was found (.inl directory)) found
    exact ⟨kept, there, kind.of_directory directory⟩
  · rw [List.reverse_reverse, there]
    rfl

theorem node_changed_below {change : Node → List Bytes → Node} (here : Local change)
    {start f : Files} {above names : List Bytes} {path : Bytes} {first node : Node}
    (zeroless : (0 : UInt8) ∉ path) (known : start.node path = .ok first)
    (same : f.working = start.working) (held : f.node path = .ok node)
    (fresh : start.root.find? above = none) (below : above <+: names) :
    ∃ kept, ({ f with root := change f.root names } : Files).node path = .ok kept ∧
      SameKind node kept := by
  -- a place above or below it on the way would have been there before it was made
  refine node_changed here zeroless known same held fun way found was _ _ within => ?_
  obtain ⟨rest, rfl⟩ := below.trans within
  have := Node.isSome_find?_of_append was
  simp [fresh] at this

/-- Replacing an entry that is no directory keeps the entries at other paths. -/
theorem node_put_apart {f : Files} {names : List Bytes} {path : Bytes} {node : Node} (new : Node)
    (zeroless : (0 : UInt8) ∉ path) (held : f.node path = .ok node)
    (loose : ∀ old, f.root.find? names = some old → old.isDirectory = false)
    (apart : f.locate path ≠ .ok names) :
    ∃ kept, ({ f with root := f.root.put names new } : Files).node path = .ok kept ∧
      SameKind node kept := by
  refine node_changed (Node.local_put new) zeroless held rfl held
    fun way found was there leads within => ?_
  obtain ⟨rest, rfl⟩ := within
  obtain ⟨old, entry⟩ := Option.isSome_iff_exists.mp (Node.isSome_find?_of_append was)
  by_cases further : rest = []
  · subst further
    rw [List.append_nil] at there leads
    obtain directory | ended := leads
    · rw [loose found there] at directory
      cases directory
    · exact apart ended
  · rw [Node.find?_below entry (loose old entry) further] at there
    cases there

/-! ## Writing -/

section Store

variable {directory name : Bytes} (way : Path.Open directory) (proper : Path.Proper name)

theorem Holds.apart {f : Files} {above : List Bytes} (holds : f.Holds directory name above) :
    f.locate directory ≠ .ok (above ++ [name]) := by
  rw [holds.located]
  simp

include way proper in
theorem node_put_self {f : Files} {above : List Bytes} (holds : f.Holds directory name above)
    (loose : ∀ old, f.root.find? (above ++ [name]) = some old → old.isDirectory = false)
    (new : Node) :
    ({ f with root := f.root.put (above ++ [name]) new } : Files).node
      (directory ++ Ascii.slash :: name) = .ok new := by
  obtain ⟨node, found, isDirectory⟩ := holds.inside
  obtain ⟨kept, stands, kind⟩ := node_put_apart new way.zeroless
    ((node_eq_ok ..).mpr ⟨above, holds.located, found⟩) loose holds.apart
  obtain ⟨place, located, there⟩ := (node_eq_ok ..).mp stands
  obtain rfl := locate_unique f { f with root := f.root.put (above ++ [name]) new } way.zeroless
    rfl holds.located located
  have self := Node.find?_put_self name new found isDirectory
  refine (node_eq_ok ..).mpr ⟨_, (locate_below way proper _ _).mpr
    ⟨above, ⟨located, ⟨kept, there, kind.of_directory isDirectory⟩, holds.shortName,
      holds.shortPath⟩, rfl, ?_⟩, self⟩
  rw [self]
  rfl

inductive Stored (f : Files) (directory name contents : Bytes) : Files → Prop
  | taken {device : Device} :
      f.node (directory ++ Ascii.slash :: name) = .ok (.device device) →
      Stored f directory name contents f
  | written {above : List Bytes} (executable : Bool) :
      f.Holds directory name above →
      (∀ old, f.root.find? (above ++ [name]) = some old → old.isDirectory = false) →
      Stored f directory name contents
        { f with root := f.root.put (above ++ [name]) (.file contents executable) }

include way proper in
theorem stored_below {f g : Files} {contents : Bytes}
    (stored : f.store (directory ++ Ascii.slash :: name) contents = some g) :
    Stored f directory name contents g := by
  have zeroless := (way.below proper).zeroless
  rw [store, upToZero_of_notMem zeroless] at stored
  dsimp only at stored
  split at stored
  · rename_i old executable present
    split at stored
    · rename_i names located
      obtain ⟨above, holds, rfl, _⟩ := (locate_below way proper f names).mp located
      cases stored
      refine .written executable holds fun other there => ?_
      obtain ⟨place, again, found⟩ := (node_eq_ok ..).mp present
      obtain rfl := Except.ok.inj (located.symm.trans again)
      obtain rfl := Option.some.inj (there.symm.trans found)
      rfl
    · cases stored
  · rename_i device present
    cases stored
    exact .taken present
  · cases stored
  · rename_i missing
    have named : ¬name.isEmpty = true := by simpa using proper.nonempty
    have bare : ¬directory.isEmpty = true := by simpa using way.nonempty
    rw [Path.fileName_below way proper, Path.parent_below way proper, if_neg bare] at stored
    split at stored
    · cases stored
    · rename_i inside
      obtain ⟨_, inside⟩ := not_or.mp inside
      rw [Bool.not_eq_true', Bool.not_eq_false, isDirectory_iff] at inside
      obtain ⟨node, held, _⟩ := inside
      obtain ⟨above, located, found⟩ := (node_eq_ok ..).mp held
      rw [located] at stored
      cases stored
      obtain ⟨holds, free⟩ := holds_of_noEntry way proper missing located found
      refine .written false holds fun other there => ?_
      rw [free] at there
      cases there
  · cases stored

variable {f g : Files} {contents : Bytes}

include way proper in
theorem Stored.self (stored : Stored f directory name contents g) :
    ∃ node, g.node (directory ++ Ascii.slash :: name) = .ok node ∧
      ((∃ device, node = .device device) ∨ ∃ executable, node = .file contents executable) := by
  cases stored with
  | taken device => exact ⟨_, device, .inl ⟨_, rfl⟩⟩
  | written executable holds loose =>
      exact ⟨_, node_put_self way proper holds loose _, .inr ⟨executable, rfl⟩⟩

theorem Stored.keeps {path : Bytes} {node : Node} (stored : Stored f directory name contents g)
    (zeroless : (0 : UInt8) ∉ path) (held : f.node path = .ok node)
    (apart : ∀ above, f.locate path ≠ .ok (above ++ [name])) :
    ∃ kept, g.node path = .ok kept ∧ SameKind node kept := by
  cases stored with
  | taken _ => exact ⟨node, held, .inl rfl⟩
  | written executable holds loose => exact node_put_apart _ zeroless held loose (apart _)

theorem ensureDirectory_of_directory (nonempty : directory ≠ [])
    (inside : f.isDirectory directory = true) : f.ensureDirectory directory = (.ok (), f) := by
  obtain ⟨node, held, isDirectory⟩ := (isDirectory_iff ..).mp inside
  rw [ensureDirectory, if_neg (by simpa using nonempty), makeDirectories, held]
  simp [isDirectory]

include way in
theorem Stored.isDirectory (stored : Stored f directory name contents g)
    (inside : f.isDirectory directory = true) : g.isDirectory directory = true := by
  cases stored with
  | taken _ => exact inside
  | written executable holds loose =>
      obtain ⟨node, held, isDirectory⟩ := (isDirectory_iff ..).mp inside
      obtain ⟨kept, stands, kind⟩ := node_put_apart _ way.zeroless held loose holds.apart
      exact (isDirectory_iff ..).mpr ⟨kept, stands, kind.of_directory isDirectory⟩

include way proper in
theorem write_below (contents : Bytes) (inside : f.isDirectory directory = true) :
    (∃ g, Stored f directory name contents g ∧
      f.write (directory ++ Ascii.slash :: name) contents = (.ok (), g)) ∨
    f.write (directory ++ Ascii.slash :: name) contents =
      (.error (.writeFailed (directory ++ Ascii.slash :: name)), f) := by
  rw [write, Path.parent_below way proper, ensureDirectory_of_directory way.nonempty inside]
  cases stored : f.store (directory ++ Ascii.slash :: name) contents with
  | none => exact .inr (by simp [stored])
  | some g => exact .inl ⟨g, stored_below way proper stored, by simp [stored]⟩

include way proper in
theorem stored_of_write {contents : Bytes} {g : Files}
    (written : f.write (directory ++ Ascii.slash :: name) contents = (.ok (), g)) :
    ∃ between, Stored between directory name contents g := by
  rw [write] at written
  split at written
  · cases written
  · rename_i between _
    split at written
    · rename_i after stored
      cases written
      exact ⟨between, stored_below way proper stored⟩
    · cases written

end Store

theorem asked_eq {path : Bytes} (way : Path.Open path) : asked path = path := by
  rw [asked, upToZero_of_notMem way.zeroless]
  simp [way.unslashed_reverse, way.nonempty]

end Files

end LuaAsset
