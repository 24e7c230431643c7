import LuaAsset.Resolved
import Mathlib.Data.List.DropRight
import Mathlib.Data.List.Induction

/-! # What a slot has found

After any requests and resets a slot holds the first value found since the last reset (`after_eq`).
A request uses that value, or else asks its own resolver once (`get_after`). -/

set_option autoImplicit false

namespace LuaAsset

namespace Resolved

variable {α σ : Type}

/-! ## Resolvers that act -/

/-- A request (`get`) with a resolver that acts on a world. -/
def getIn (slot : Resolved α) (resolver : σ → Except Failure α × σ) (world : σ) :
    Except Failure α × σ × Resolved α :=
  match slot.value? with
  | some value => (.ok value, world, slot)
  | none => match resolver world with
      | (.ok value, world) => (.ok value, world, ⟨some value⟩)
      | (.error failure, world) => (.error failure, world, slot)

/-- The world changes by the resolver if it is asked, and not otherwise. -/
theorem getIn_eq (slot : Resolved α) (resolver : σ → Except Failure α × σ) (world : σ) :
    slot.getIn resolver world =
      let (answer, asked, next) := slot.get (resolver world).1
      (answer, if asked then (resolver world).2 else world, next) := by
  obtain ⟨value?⟩ := slot
  cases value? with
  | some value => rfl
  | none =>
      rcases called : resolver world with ⟨_ | _, _⟩ <;> simp [getIn, get, called]

/-! ## Uses -/

inductive Use (α : Type) where
  | get (resolve : Except Failure α)
  | reset

namespace Use

def isReset : Use α → Bool
  | .get _ => false
  | .reset => true

def found? : Use α → Option α
  | .get (.ok value) => some value
  | .get (.error _) | .reset => none

end Use

def use (slot : Resolved α) : Use α → Resolved α
  | .get resolve => (slot.get resolve).2.2
  | .reset => empty

def after (uses : List (Use α)) : Resolved α := uses.foldl use empty

theorem after_concat (before : List (Use α)) (last : Use α) :
    after (before ++ [last]) = (after before).use last := List.foldl_concat ..

/-- The first value found since the last reset. -/
def firstFound? (uses : List (Use α)) : Option α :=
  (uses.rtakeWhile fun use => !use.isReset).findSome? Use.found?

theorem firstFound?_reset (before : List (Use α)) : firstFound? (before ++ [.reset]) = none := by
  rw [firstFound?, List.rtakeWhile_concat_neg _ _ _ (by simp [Use.isReset])]
  rfl

theorem firstFound?_get (before : List (Use α)) (resolve : Except Failure α) :
    firstFound? (before ++ [.get resolve]) = (firstFound? before).or (Use.get resolve).found? := by
  rw [firstFound?, List.rtakeWhile_concat_pos _ _ _ (by simp [Use.isReset]), List.findSome?_append,
    ← firstFound?]
  simp

theorem after_eq (before : List (Use α)) : after before = ⟨firstFound? before⟩ := by
  induction before using List.reverseRecOn with
  | nil => rfl
  | append_singleton before last ih =>
      rw [after_concat, ih]
      cases last with
      | reset => rw [firstFound?_reset]; rfl
      | get resolve =>
          rw [firstFound?_get]
          cases firstFound? before with
          | some value => rfl
          | none => cases resolve <;> rfl

/-! ## Requests after uses -/

structure Answers (slot : Resolved α) (value : α) : Prop where
  get : ∀ resolve, slot.get resolve = (.ok value, false, slot)
  getIn : ∀ (σ : Type) (resolver : σ → Except Failure α × σ) (world : σ),
    slot.getIn resolver world = (.ok value, world, slot)

/-- An empty slot asks the resolver of a request once and passes on its answer; it keeps a value,
and stays empty after a failure. -/
structure Asks (slot : Resolved α) : Prop where
  empty_eq : slot = empty
  get : ∀ resolve, slot.get resolve = (resolve, true, slot.use (.get resolve))
  getIn : ∀ (σ : Type) (resolver : σ → Except Failure α × σ) (world : σ),
    slot.getIn resolver world =
      ((resolver world).1, (resolver world).2, slot.use (.get (resolver world).1))
  found : ∀ value, (slot.use (.get (.ok value))).Answers value
  failed : ∀ failure, slot.use (.get (.error failure)) = slot

theorem answers_some (value : α) : Answers ⟨some value⟩ value where
  get := get_resolved value
  getIn _ _ _ := rfl

theorem get_empty (resolve : Except Failure α) :
    get empty resolve = (resolve, true, use empty (.get resolve)) := by
  cases resolve <;> rfl

theorem asks_empty : Asks (empty : Resolved α) where
  empty_eq := rfl
  get := get_empty
  getIn := by
    intro σ resolver world
    rw [getIn_eq, get_empty]
    rfl
  found := answers_some
  failed _ := rfl

/-- After any history a request is answered with the first value found since the last reset; if
there is none, its own resolver is asked. -/
theorem get_after (before : List (Use α)) :
    (∀ value, firstFound? before = some value → (after before).Answers value) ∧
      (firstFound? before = none → (after before).Asks) := by
  rw [after_eq]
  constructor
  · intro value found
    rw [found]
    exact answers_some value
  · intro nothing
    rw [nothing]
    exact asks_empty

theorem get_after_retried :
    (after [.get (.error (.libraryMissing (text "lua53.so"))), .get (.ok (text "lua5.3")),
        .get (.ok (text "lua5.4"))]).get (.ok (text "luajit")) =
      (.ok (text "lua5.3"), false, ⟨some (text "lua5.3")⟩) ∧
    (after [.get (.ok (text "lua5.3")), .reset,
        .get (.error (.libraryMissing (text "lua53.so")))]).get (.ok (text "luajit")) =
      (.ok (text "luajit"), true, ⟨some (text "luajit")⟩) :=
  ⟨((get_after _).1 _ rfl).get _, ((get_after _).2 rfl).get _⟩

end Resolved

end LuaAsset
