import LuaAsset.Proofs.Table.Held

/-! # Entries of an object

The entries of an object are sorted and then written under their names: numerals in ascending order,
then names in ascending order (`exists_names_written` on each part).  The sort is stable, so a name
holds the last value under a string or boolean, or else that of the integer (`build_object`). -/

set_option autoImplicit false

namespace LuaAsset

theorem filter_append_filter_not {α : Type} {p : α → Bool} {xs : List α}
    (first : xs.Pairwise fun a b => p b = true → p a = true) :
    xs.filter p ++ xs.filter (fun a => !p a) = xs := by
  induction xs with
  | nil => rfl
  | cons a xs ih =>
      obtain ⟨leads, later⟩ := List.pairwise_cons.mp first
      cases inside : p a with
      | true => simp [inside, ih later]
      | false =>
          have outside : ∀ b ∈ xs, p b = false := by
            intro b member
            cases inB : p b with
            | true => rw [leads b member inB] at inside; cases inside
            | false => rfl
          have none : xs.filter p = [] := by simpa using outside
          have all : xs.filter (fun b => !p b) = xs := by simpa using outside
          simp [inside, none, all]

theorem decimalInt_toInt_injective : Function.Injective fun n : Int64 => decimalInt n.toInt := by
  intro m n same
  exact Int64.toInt_inj.mp (decimalInt_injective same)

namespace Value

theorem isSlot_of_isPlainKey {k : Value} (plain : k.isPlainKey = true) : k.IsSlot := by
  obtain ⟨n, rfl⟩ | ⟨s, rfl⟩ | ⟨x, rfl⟩ := isPlainKey_cases plain <;> exact trivial

theorem exists_integer_of_isPlainKey {k : Value} (plain : k.isPlainKey = true)
    (number : k.isNumber = true) : ∃ n, k = .integer n := by
  obtain ⟨n, rfl⟩ | ⟨s, rfl⟩ | ⟨x, rfl⟩ := isPlainKey_cases plain
  · exact ⟨n, rfl⟩
  · cases number
  · cases number

theorem position?_of_name {k : Value} (name : k.isNumber = false) : k.position? = none := by
  cases k <;> first | rfl | cases name

theorem eq_of_numbers {a b : Value} (plainLeft : a.isPlainKey = true)
    (plainRight : b.isPlainKey = true) (left : a.isNumber = true) (right : b.isNumber = true)
    (names : a.keyName = b.keyName) : a = b := by
  obtain ⟨m, rfl⟩ := exists_integer_of_isPlainKey plainLeft left
  obtain ⟨n, rfl⟩ := exists_integer_of_isPlainKey plainRight right
  exact congrArg Value.integer (decimalInt_toInt_injective names)

end Value

namespace TableDraft

def numbersOf (pairs : List (Value × Value)) : List Int64 := pairs.map fun pair => pair.1.signedBits

def numberEntries (t : TableDraft) : List (Value × Value) :=
  t.entries.filter fun entry => entry.1.isNumber

def nameEntries (t : TableDraft) : List (Value × Value) :=
  t.entries.filter fun entry => !entry.1.isNumber

theorem fields_eq_written (t : TableDraft) : t.fields = written t.entries [] := rfl

theorem rising_of_sorted {entries : List (Value × Value)}
    (integers : ∀ entry ∈ entries, entry.1.isNumber = true ∧ entry.1.isFloat = false)
    (sorted : entries.Pairwise fun a b => b.1.keyLt a.1 = false) :
    (numbersOf entries).Pairwise (· ≤ ·) := by
  rw [numbersOf, List.pairwise_map]
  apply sorted.imp_of_mem
  intro a b left right notAfter
  obtain ⟨numberA, exactA⟩ := integers a left
  obtain ⟨numberB, exactB⟩ := integers b right
  rw [Value.keyLt_eq_keyOrder, Value.keyOrder_numbers numberB numberA,
    Value.numberLt_exact exactB exactA, decide_eq_false_iff_not] at notAfter
  exact Int64.not_lt.mp notAfter

/-- If the names of the entries are ascending numerals, the fields are named by these numerals in
ascending order, each once. -/
theorem exists_numerals {entries : List (Value × Value)}
    (numerals : namesOf entries = (numbersOf entries).map fun n => decimalInt n.toInt)
    (rising : (numbersOf entries).Pairwise (· ≤ ·)) : ∃ numbers : List Int64,
    (written entries []).map Prod.fst = numbers.map (fun n => decimalInt n.toInt) ∧
      numbers.Pairwise (· < ·) ∧ ∀ n, n ∈ numbers ↔ n ∈ numbersOf entries := by
  obtain ⟨front, names, order⟩ := exists_names_written entries []
  rw [numerals, List.sublist_map_iff] at order
  obtain ⟨numbers, order, rfl⟩ := order
  obtain ⟨once, members⟩ := names_written entries [] List.nodup_nil
  rw [List.map_nil, List.nil_append] at names
  rw [names] at once members
  refine ⟨numbers, names, ?_, ?_⟩
  · apply ((rising.sublist order).and once.of_map).imp
    rintro m n ⟨atMost, differ⟩
    exact Int64.lt_of_le_of_ne atMost differ
  · intro n
    have among := members (decimalInt n.toInt)
    rw [numerals, List.mem_map_of_injective decimalInt_toInt_injective,
      List.mem_map_of_injective decimalInt_toInt_injective] at among
    simpa using among

section Plain

variable {pairs : List (Value × Value)} (plain : ∀ pair ∈ pairs, pair.1.isPlainKey = true)
include plain

theorem isKey_of_plain : ∀ pair ∈ pairs, pair.1.IsKey :=
  fun pair member => Value.isKey_of_isPlainKey (plain pair member)

theorem isPlainKey_of_mem_held {entry : Value × Value} (member : entry ∈ (ofPairs pairs).held) :
    entry.1.isPlainKey = true := by
  have among := (mem_keys_held (isKey_of_plain plain)).mp (List.mem_map_of_mem member)
  obtain ⟨pair, inside, same⟩ := List.mem_map.mp among
  rw [← same]
  exact plain pair inside

theorem isPlainKey_of_mem_entries {entry : Value × Value}
    (member : entry ∈ (ofPairs pairs).entries) : entry.1.isPlainKey = true :=
  isPlainKey_of_mem_held plain ((ofPairs pairs).entries_perm.mem_iff.mp member)

theorem mem_keys_entries {key : Value} :
    key ∈ (ofPairs pairs).entries.map Prod.fst ↔ key ∈ pairs.map Prod.fst :=
  (((ofPairs pairs).entries_perm.map Prod.fst).mem_iff).trans
    (mem_keys_held (isKey_of_plain plain))

/-! ## The order of entries -/

theorem sorted_entries :
    (ofPairs pairs).entries.Pairwise fun a b => b.1.keyLt a.1 = false :=
  sorted_stableSort weakOrderOn_entries fun _ member =>
    Value.isFloat_of_isPlainKey (isPlainKey_of_mem_held plain member)

theorem entries_split : (ofPairs pairs).numberEntries ++ (ofPairs pairs).nameEntries =
    (ofPairs pairs).entries := by
  apply filter_append_filter_not
  apply (sorted_entries plain).imp
  intro a b notAfter number
  by_contra name
  rw [Value.keyLt_eq_keyOrder, Value.keyOrder_mixed (by simp [number, name]), number] at notAfter
  cases notAfter

theorem exists_integer_of_mem {entry : Value × Value}
    (member : entry ∈ (ofPairs pairs).numberEntries) : ∃ n, entry.1 = .integer n := by
  obtain ⟨member, number⟩ := List.mem_filter.mp member
  exact Value.exists_integer_of_isPlainKey (isPlainKey_of_mem_entries plain member) number

theorem namesOf_numberEntries : namesOf (ofPairs pairs).numberEntries =
    (numbersOf (ofPairs pairs).numberEntries).map fun n => decimalInt n.toInt := by
  rw [namesOf, numbersOf, List.map_map]
  apply List.map_congr_left
  intro entry member
  obtain ⟨n, integer⟩ := exists_integer_of_mem plain member
  rw [integer, Function.comp_apply, integer]
  rfl

theorem mem_numbersOf {n : Int64} :
    n ∈ numbersOf (ofPairs pairs).numberEntries ↔ .integer n ∈ pairs.map Prod.fst := by
  rw [← mem_keys_entries plain, numbersOf]
  constructor
  · intro among
    obtain ⟨entry, member, rfl⟩ := List.mem_map.mp among
    obtain ⟨n, integer⟩ := exists_integer_of_mem plain member
    have same : .integer entry.1.signedBits = entry.1 := by
      rw [integer]
      rfl
    rw [same]
    exact List.mem_map_of_mem (List.mem_filter.mp member).1
  · intro among
    obtain ⟨entry, member, integer⟩ := List.mem_map.mp among
    have number : entry.1.isNumber = true := by
      rw [integer]
      rfl
    refine List.mem_map.mpr ⟨entry, List.mem_filter.mpr ⟨member, number⟩, ?_⟩
    rw [integer]
    rfl

theorem rising_numbers : (numbersOf (ofPairs pairs).numberEntries).Pairwise (· ≤ ·) := by
  apply rising_of_sorted _ ((sorted_entries plain).filter _)
  intro entry member
  obtain ⟨n, integer⟩ := exists_integer_of_mem plain member
  rw [integer]
  exact ⟨rfl, rfl⟩

theorem rising_names : (namesOf (ofPairs pairs).nameEntries).Pairwise (· ≤ ·) := by
  rw [namesOf, List.pairwise_map]
  apply ((sorted_entries plain).filter _).imp_of_mem
  intro a b left right notAfter
  have nameA := (List.mem_filter.mp left).2
  have nameB := (List.mem_filter.mp right).2
  rw [Bool.not_eq_true'] at nameA nameB
  rwa [Value.keyLt_eq_keyOrder, Value.keyOrder_names nameB nameA, bytesLt_eq_false_iff]
    at notAfter

theorem exists_numbers : ∃ numbers : List Int64,
    (written (ofPairs pairs).numberEntries []).map Prod.fst =
      numbers.map (fun n => decimalInt n.toInt) ∧
    numbers.Pairwise (· < ·) ∧ ∀ n, n ∈ numbers ↔ .integer n ∈ pairs.map Prod.fst := by
  obtain ⟨numbers, names, order, members⟩ :=
    exists_numerals (namesOf_numberEntries plain) (rising_numbers plain)
  exact ⟨numbers, names, order, fun n => (members n).trans (mem_numbersOf plain)⟩

theorem exists_other_names {fields : List (Bytes × Value)} (once : (fields.map Prod.fst).Nodup) :
    ∃ names : List Bytes,
      (written (ofPairs pairs).nameEntries fields).map Prod.fst =
        fields.map Prod.fst ++ names ∧ names.Pairwise (· < ·) := by
  obtain ⟨names, behind, order⟩ := exists_names_written (ofPairs pairs).nameEntries fields
  have apart := (names_written (ofPairs pairs).nameEntries fields once).1
  rw [behind, List.nodup_append] at apart
  refine ⟨names, behind, ?_⟩
  apply (((rising_names plain).sublist order).and apart.2.1).imp
  rintro s t ⟨atMost, differ⟩
  by_contra notLess
  exact differ (List.le_antisymm atMost (List.not_lt.mp notLess))

/-! ## The values of entries -/

theorem latest_entries {among : Value → Bool}
    (tied : ∀ a ∈ (ofPairs pairs).held, ∀ b ∈ (ofPairs pairs).held,
      among a.1 = true → among b.1 = true → Value.keyBefore a.1 b.1 = false) :
    latest among (ofPairs pairs).entries = latest among (ofPairs pairs).held := by
  have slots : ∀ pair ∈ pairs, pair.1.IsSlot :=
    fun pair member => Value.isSlot_of_isPlainKey (plain pair member)
  have kept := filter_stableSort weakOrderOn_pairBefore (agree_held slots) tied
  rw [latest, latest, ← kept]
  rfl

theorem latest_nameEntries (name : Bytes) :
    latest (fun key => key.keyName = name) (ofPairs pairs).nameEntries =
      latest (fun key => key.keyName = name && !key.isNumber) pairs := by
  rw [nameEntries, latest_filter fun key => !key.isNumber, latest_entries plain,
    latest_held_of_beside (isKey_of_plain plain)]
  · intro pair _ chosen
    simp only [Bool.and_eq_true, Bool.not_eq_true'] at chosen
    exact Value.position?_of_name chosen.2
  · intro a _ b _ chosenA chosenB
    simp only [Bool.and_eq_true, Bool.not_eq_true', decide_eq_true_eq] at chosenA chosenB
    rw [Value.keyBefore, Value.keyOrder_names chosenA.2 chosenB.2, bytesLt_eq_false_iff, chosenA.1,
      chosenB.1]
    exact List.le_refl name

theorem latest_numberEntries (name : Bytes) :
    latest (fun key => key.keyName = name) (ofPairs pairs).numberEntries =
      latest (fun key => key.keyName = name && key.isNumber) pairs := by
  have single : ∀ a b : Value, a.isPlainKey = true → b.isPlainKey = true →
      (a.keyName = name && a.isNumber) = true → (b.keyName = name && b.isNumber) = true →
        a = b := by
    intro a b plainA plainB chosenA chosenB
    simp only [Bool.and_eq_true, decide_eq_true_eq] at chosenA chosenB
    exact Value.eq_of_numbers plainA plainB chosenA.2 chosenB.2 (chosenA.1.trans chosenB.1.symm)
  rw [numberEntries, latest_filter Value.isNumber, latest_entries plain,
    latest_held_of_single (isKey_of_plain plain)]
  · intro a memberA b memberB
    exact single a.1 b.1 (plain a memberA) (plain b memberB)
  · intro a memberA b memberB chosenA chosenB
    rw [single a.1 b.1 (isPlainKey_of_mem_held plain memberA) (isPlainKey_of_mem_held plain memberB)
      chosenA chosenB]
    exact Value.keyBefore_irrefl b.1

theorem lookup_fields_latest (name : Bytes) : (ofPairs pairs).fields.lookup name =
    (latest (fun key => key.keyName = name && !key.isNumber) pairs).or
      (latest (fun key => key.keyName = name && key.isNumber) pairs) := by
  rw [fields_eq_written, lookup_written_latest, List.lookup_nil, Option.or_none,
    ← entries_split plain, latest_append, latest_nameEntries plain, latest_numberEntries plain]

end Plain

/-- If pairs with integers, strings and booleans as keys build no array, they build an object with
one entry for each name: integers in ascending order, then the other names by their bytes.  The
value is the last one under a string or boolean of that name, or else the last one under the
integer. -/
theorem build_object {pairs : List (Value × Value)}
    (plain : ∀ pair ∈ pairs, pair.1.isPlainKey = true)
    (noArray : ∀ items, (ofPairs pairs).build ≠ .array items) :
    ∃ (numbers : List Int64) (names : List Bytes) (fields : List (Bytes × Value)),
      (ofPairs pairs).build = .object fields ∧
      fields.map Prod.fst = numbers.map (fun n => decimalInt n.toInt) ++ names ∧
      (fields.map Prod.fst).Nodup ∧ numbers.Pairwise (· < ·) ∧ names.Pairwise (· < ·) ∧
      (∀ n, n ∈ numbers ↔ .integer n ∈ pairs.map Prod.fst) ∧
      (∀ name, name ∈ fields.map Prod.fst ↔ name ∈ namesOf pairs) ∧
      ∀ name, fields.lookup name =
        (latest (fun key => key.keyName = name && !key.isNumber) pairs).or
          (latest (fun key => key.keyName = name && key.isNumber) pairs) := by
  have proper : ∀ pair ∈ pairs, pair.1.isNull = false :=
    fun pair member => (isKey_of_plain plain pair member).isNull
  have shape : (ofPairs pairs).isArray = false :=
    Bool.eq_false_iff.mpr fun array => noArray _ ((build_eq_array_iff _ _).mpr ⟨array, rfl⟩)
  have parts : (ofPairs pairs).fields =
      written (ofPairs pairs).nameEntries (written (ofPairs pairs).numberEntries []) := by
    rw [fields_eq_written, ← entries_split plain, written_append]
  obtain ⟨onceNumbers, _⟩ := names_written (ofPairs pairs).numberEntries [] List.nodup_nil
  obtain ⟨once, members⟩ := names_written (ofPairs pairs).entries [] List.nodup_nil
  obtain ⟨numbers, spelled, rising, integers⟩ := exists_numbers plain
  obtain ⟨names, behind, risingNames⟩ := exists_other_names plain onceNumbers
  refine ⟨numbers, names, (ofPairs pairs).fields, ?_, ?_, once, rising, risingNames, integers, ?_,
    lookup_fields_latest plain⟩
  · rw [build, shape, if_neg Bool.false_ne_true]
  · rw [parts, behind, spelled]
  · intro name
    rw [← (keeps_ofPairs proper).names name, ← mem_namesOf_entries]
    refine (members name).trans ?_
    simp

def homonyms : List (Value × Value) :=
  [(.string (text "5"), .bool true), (.bool true, .integer 1), (.integer 5, .integer 2),
    (.integer 0, .null), (.string (text "true"), .integer 3), (.integer 0, .integer 4)]

theorem build_object_homonyms :
    (∀ pair ∈ homonyms, pair.1.isPlainKey = true) ∧
      (∀ items, (ofPairs homonyms).build ≠ .array items) ∧
      ∃ fields, (ofPairs homonyms).build = .object fields ∧
        fields.lookup (text "0") = some (.integer 4) ∧
        fields.lookup (text "5") = some (.bool true) ∧
        fields.lookup (text "true") = some (.integer 3) := by
  have plain : ∀ pair ∈ homonyms, pair.1.isPlainKey = true := by decide
  have noArray : ∀ items, (ofPairs homonyms).build ≠ .array items := by
    intro items
    rw [build_of_beside (by decide)]
    exact Value.noConfusion
  obtain ⟨_, _, fields, built, _, _, _, _, _, _, values⟩ := build_object plain noArray
  exact ⟨plain, noArray, fields, built, (values _).trans (by decide +kernel),
    (values _).trans (by decide +kernel), (values _).trans (by decide +kernel)⟩

end TableDraft

end LuaAsset
