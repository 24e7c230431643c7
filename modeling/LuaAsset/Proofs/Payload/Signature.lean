import LuaAsset.Payload

/-! # The first signature

The signature has no border, so a signature after bytes without one is the first
(`splitAtFirst_signature`). -/

set_option autoImplicit false

namespace LuaAsset

theorem splitAtFirst_of_first (pattern after : Bytes) (nonempty : pattern ≠ []) :
    ∀ before : Bytes,
      (∀ i < before.length, ¬pattern <+: (before ++ (pattern ++ after)).drop i) →
      splitAtFirst pattern (before ++ (pattern ++ after)) = some (before, after) := by
  intro before
  induction before with
  | nil =>
      intro _
      cases pattern with
      | nil => exact absurd rfl nonempty
      | cons c pattern => simp [splitAtFirst]
  | cons c before ih =>
      intro first
      have here : ¬pattern <+: c :: (before ++ (pattern ++ after)) := first 0 (by simp)
      have later := ih fun i hi => first (i + 1) (by simpa using hi)
      have skipped : pattern.isPrefixOf (c :: (before ++ (pattern ++ after))) = false := by
        rw [Bool.eq_false_iff]
        exact fun starts => here (List.isPrefixOf_iff_prefix.mp starts)
      rw [List.cons_append, splitAtFirst, skipped, later]
      rfl

theorem not_prefix_of_splitAtFirst {pattern : Bytes} (s : Bytes) : ∀ {before after : Bytes},
    splitAtFirst pattern s = some (before, after) → ∀ i < before.length, ¬pattern <+: s.drop i := by
  induction s with
  | nil =>
      intro before after cut i inside
      rw [splitAtFirst] at cut
      split at cut
      · cases cut
        cases inside
      · cases cut
  | cons c s ih =>
      intro before after cut i inside starts
      rw [splitAtFirst] at cut
      split at cut
      · cases cut
        cases inside
      · rename_i here
        obtain ⟨later, found, same⟩ := Option.map_eq_some_iff.mp cut
        cases same
        cases i with
        | zero => exact here (List.isPrefixOf_iff_prefix.mpr starts)
        | succ i => exact ih found i (Nat.lt_of_succ_lt_succ inside) starts

namespace Payload

theorem length_signature : signature.length = 8 := by decide

/-- No proper suffix of the signature is a prefix of it. -/
theorem signature_borderless :
    ∀ k < 8, 0 < k → signature.drop k ≠ signature.take (8 - k) := by decide

/-- A lead without the signature holds no start of one, even with a signature after it. -/
theorem not_prefix_before_signature (lead after : Bytes) (nonempty : lead ≠ [])
    (absent : ¬signature <:+: lead) : ¬signature <+: lead ++ (signature ++ after) := by
  intro starts
  by_cases long : 8 ≤ lead.length
  · have inside : signature <+: lead := by
      apply List.prefix_of_prefix_length_le starts (List.prefix_append _ _)
      rw [length_signature]
      exact long
    exact absent inside.isInfix
  · have positive : 0 < lead.length := List.length_pos_iff.mpr nonempty
    obtain ⟨tail, same⟩ := starts
    -- the part of the first signature after the lead starts the second one
    have behind : signature.drop lead.length ++ tail = signature ++ after := by
      have dropped := congrArg (List.drop lead.length) same
      rw [List.drop_append_of_le_length (by rw [length_signature]; omega), List.drop_left] at dropped
      exact dropped
    have count : (signature.drop lead.length).length = 8 - lead.length := by
      rw [List.length_drop, length_signature]
    have border : signature.drop lead.length = signature.take (8 - lead.length) := by
      have taken := congrArg (List.take (8 - lead.length)) behind
      rw [List.take_left' count, List.take_append_of_le_length (by rw [length_signature]; omega)]
        at taken
      exact taken
    exact signature_borderless lead.length (by omega) positive border

theorem splitAtFirst_signature (lead after : Bytes) (absent : ¬signature <:+: lead) :
    splitAtFirst signature (lead ++ (signature ++ after)) = some (lead, after) := by
  have nonempty : signature ≠ [] := by
    intro empty
    have length := length_signature
    rw [empty] at length
    cases length
  apply splitAtFirst_of_first signature after nonempty
  intro i hi
  have rest : lead.drop i ≠ [] := by
    intro empty
    have short := List.drop_eq_nil_iff.mp empty
    omega
  have without : ¬signature <:+: lead.drop i := fun inside =>
    absent (inside.trans (List.drop_suffix i lead).isInfix)
  rw [List.drop_append_of_le_length (by omega)]
  exact not_prefix_before_signature (lead.drop i) after rest without

end Payload

end LuaAsset
