import LuaAsset.Failure

/-! # Values that are resolved once

A slot keeps the first value found until it is reset.  A failure leaves it empty, so the next
request resolves again. -/

set_option autoImplicit false

namespace LuaAsset

structure Resolved (α : Type) where
  value? : Option α
  deriving DecidableEq, Repr

namespace Resolved

variable {α : Type}

def empty : Resolved α := ⟨none⟩

/-- The held value, or else the answer of the resolver; the flag says whether it was asked. -/
def get (slot : Resolved α) (resolve : Except Failure α) :
    Except Failure α × Bool × Resolved α :=
  match slot.value? with
  | some value => (.ok value, false, slot)
  | none => match resolve with
      | .ok value => (.ok value, true, ⟨some value⟩)
      | .error failure => (.error failure, true, slot)

theorem get_resolved (value : α) (resolve : Except Failure α) :
    get ⟨some value⟩ resolve = (.ok value, false, ⟨some value⟩) := rfl

end Resolved

end LuaAsset
