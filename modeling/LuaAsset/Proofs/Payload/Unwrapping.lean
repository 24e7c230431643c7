import LuaAsset.Proofs.Payload.RoundTrip
import Mathlib.Data.Nat.Find

/-! # Unwrapping arbitrary bytes

The first place of the signature decides (`FirstAt`): there is a result iff a whole block follows
the signature and the length (`opened_eq_none_iff`).  `unwrapChecked` passes on failures of the
cipher, and `unwrapChecked_eq` shows that there are none. -/

set_option autoImplicit false

namespace LuaAsset

/-! ## The first place of a pattern -/

structure FirstAt (pattern s : Bytes) (i : Nat) : Prop where
  here : pattern <+: s.drop i
  before : ∀ j < i, ¬pattern <+: s.drop j

section FirstAt

variable {pattern s : Bytes} {i : Nat}

theorem isInfix_iff_firstAt : pattern <:+: s ↔ ∃! i, FirstAt pattern s i := by
  constructor
  · rintro ⟨front, back, same⟩
    have somewhere : ∃ i, pattern <+: s.drop i := by
      refine ⟨front.length, back, ?_⟩
      rw [← same, List.append_assoc, List.drop_left]
    have first : FirstAt pattern s (Nat.find somewhere) :=
      ⟨Nat.find_spec somewhere, fun j => Nat.find_min somewhere⟩
    refine ⟨Nat.find somewhere, first, fun j other => ?_⟩
    obtain less | same | more := Nat.lt_trichotomy j (Nat.find somewhere)
    · exact absurd other.here (first.before j less)
    · exact same
    · exact absurd first.here (other.before _ more)
  · rintro ⟨i, first, _⟩
    exact first.here.isInfix.trans (List.drop_suffix i s).isInfix

theorem splitAtFirst_firstAt (nonempty : pattern ≠ []) (first : FirstAt pattern s i) :
    splitAtFirst pattern s = some (s.take i, s.drop (i + pattern.length)) := by
  have shape : s.take i ++ (pattern ++ s.drop (i + pattern.length)) = s := by
    obtain ⟨behind, same⟩ := first.here
    have rest : s.drop (i + pattern.length) = behind := by
      rw [← List.drop_drop, ← same, List.drop_left]
    rw [rest, same, List.take_append_drop]
  have short : (s.take i).length ≤ i := List.length_take_le i s
  have cut := splitAtFirst_of_first pattern (s.drop (i + pattern.length)) nonempty (s.take i)
  rw [shape] at cut
  exact cut fun j inside => first.before j (Nat.lt_of_lt_of_le inside short)

theorem splitAtFirst_eq_none (absent : ¬pattern <:+: s) : splitAtFirst pattern s = none := by
  cases cut : splitAtFirst pattern s with
  | none => rfl
  | some parts =>
      obtain ⟨before, behind⟩ := parts
      exact absurd ⟨before, behind, (splitAtFirst_eq pattern s before behind cut).symm⟩ absent

end FirstAt

namespace Payload

open Cipher

/-! ## The parts after a signature -/

def declaredAt (blob : Bytes) (i : Nat) : Nat := littleEndianValue ((blob.drop (i + 8)).take 4)

def encryptedAt (blob : Bytes) (i : Nat) : Bytes :=
  (blob.drop (i + 12)).take ((blob.length - i - 12) / 8 * 8)

theorem encryptedAt_eq (blob : Bytes) (i : Nat) :
    encryptedAt blob i = wholeBlocks ((blob.drop (i + 8)).drop 4) := by
  rw [encryptedAt, wholeBlocks, List.drop_drop, List.length_drop, Nat.sub_sub]
  rfl

theorem length_encryptedAt (blob : Bytes) (i : Nat) :
    (encryptedAt blob i).length = (blob.length - i - 12) / 8 * 8 := by
  rw [encryptedAt_eq, length_wholeBlocks, List.length_drop, List.length_drop]
  omega

theorem decrypt_aligned (data : Bytes) (aligned : data.length % 8 = 0) :
    decrypt key data = .ok (blocks (schedule key .decrypt) data) := by
  rw [decrypt, run_scheduled .decrypt key rfl, crypt_aligned _ _ aligned]

/-! ## Checks of the cipher -/

/-- Unwraps with a cipher that checks its key and its data. -/
def unwrapChecked (blob : Bytes) : Except Failure (Option Bytes) :=
  match splitAtFirst signature blob with
  | none => .ok none
  | some (_, behind) =>
      if behind.length < 4 then .ok none
      else if (wholeBlocks (behind.drop 4)).isEmpty then .ok none
      else match decrypt key (wholeBlocks (behind.drop 4)) with
        | .ok plain => .ok (some (plain.take (littleEndianValue (behind.take 4))))
        | .error failure => .error failure

theorem decrypt_wholeBlocks (s : Bytes) :
    decrypt key (wholeBlocks s) = .ok (blocks (schedule key .decrypt) (wholeBlocks s)) := by
  apply decrypt_aligned
  rw [length_wholeBlocks, Nat.mul_mod_left]

/-- Unwrapping passes only whole blocks and a valid key to the cipher. -/
theorem unwrapChecked_eq (blob : Bytes) : unwrapChecked blob = .ok (unwrap blob) := by
  unfold unwrapChecked unwrap
  cases splitAtFirst signature blob with
  | none => rfl
  | some cut =>
      obtain ⟨before, behind⟩ := cut
      dsimp only
      by_cases short : behind.length < 4
      · have nothing : behind.drop 4 = [] := List.drop_eq_nil_of_le (Nat.le_of_lt short)
        rw [if_pos short, nothing]
        rfl
      · rw [if_neg short, decrypt_wholeBlocks]
        by_cases empty : (wholeBlocks (behind.drop 4)).isEmpty = true
        · rw [if_pos empty, if_pos empty]
        · rw [if_neg empty, if_neg empty]

/-! ## The result by the first place -/

theorem signature_ne_nil : signature ≠ [] := by decide

theorem unwrap_absent {blob : Bytes} (absent : ¬signature <:+: blob) : unwrap blob = none := by
  rw [unwrap, splitAtFirst_eq_none absent]

theorem unwrap_firstAt {blob : Bytes} {i : Nat} (first : FirstAt signature blob i) :
    unwrap blob = opened (blob.drop (i + 8)) := by
  rw [unwrap, splitAtFirst_firstAt signature_ne_nil first, length_signature]
  rfl

theorem isEmpty_wholeBlocks_iff (s : Bytes) : (wholeBlocks s).isEmpty = true ↔ s.length < 8 := by
  rw [List.isEmpty_iff, ← List.length_eq_zero_iff, length_wholeBlocks]
  omega

theorem opened_of_long {behind : Bytes} (long : 12 ≤ behind.length) :
    opened behind =
      some ((blocks (schedule key .decrypt) (wholeBlocks (behind.drop 4))).take
        (littleEndianValue (behind.take 4))) := by
  have filled : ¬(wholeBlocks (behind.drop 4)).isEmpty = true := by
    rw [isEmpty_wholeBlocks_iff, List.length_drop]
    omega
  rw [opened, if_neg filled]

theorem opened_eq_none_iff (behind : Bytes) : opened behind = none ↔ behind.length < 12 := by
  constructor
  · intro nothing
    obtain short | long := Nat.lt_or_ge behind.length 12
    · exact short
    · rw [opened_of_long long] at nothing
      cases nothing
  · intro short
    have empty : (wholeBlocks (behind.drop 4)).isEmpty = true := by
      rw [isEmpty_wholeBlocks_iff, List.length_drop]
      omega
    rw [opened, if_pos empty]

theorem unwrap_eq_none_iff (blob : Bytes) :
    unwrap blob = none ↔
      ¬signature <:+: blob ∨ ∃ i, FirstAt signature blob i ∧ blob.length - i < 20 := by
  constructor
  · intro nothing
    by_cases inside : signature <:+: blob
    · obtain ⟨i, first, _⟩ := isInfix_iff_firstAt.mp inside
      rw [unwrap_firstAt first, opened_eq_none_iff, List.length_drop] at nothing
      exact .inr ⟨i, first, by omega⟩
    · exact .inl inside
  · rintro (absent | ⟨i, first, short⟩)
    · exact unwrap_absent absent
    · rw [unwrap_firstAt first, opened_eq_none_iff, List.length_drop]
      omega

theorem unwrap_of_long {blob : Bytes} {i : Nat} (first : FirstAt signature blob i)
    (long : 20 ≤ blob.length - i) :
    ∃ plain, decrypt key (encryptedAt blob i) = .ok plain ∧
      plain.length = (blob.length - i - 12) / 8 * 8 ∧
      unwrap blob =
        some (plain.take (min (declaredAt blob i) ((blob.length - i - 12) / 8 * 8))) := by
  have aligned : (encryptedAt blob i).length % 8 = 0 := by
    rw [length_encryptedAt, Nat.mul_mod_left]
  have count : (blocks (schedule key .decrypt) (encryptedAt blob i)).length =
      (blob.length - i - 12) / 8 * 8 := by
    rw [length_blocks _ _ aligned, length_encryptedAt]
  refine ⟨_, decrypt_aligned _ aligned, count, ?_⟩
  have behind : 12 ≤ (blob.drop (i + 8)).length := by
    rw [List.length_drop]
    omega
  -- to cut to the length alone is to cut to the smaller of the length and what is there
  rw [unwrap_firstAt first, opened_of_long behind, ← encryptedAt_eq, ← count,
    ← List.take_eq_take_min, declaredAt]

theorem unwrap_lead (lead blob : Bytes) (absent : ¬signature <:+: lead)
    (starts : signature <+: blob) : unwrap (lead ++ blob) = unwrap blob := by
  obtain ⟨behind, rfl⟩ := starts
  have nothing : ¬signature <:+: [] := by decide
  rw [unwrap_behind_signature lead behind absent]
  exact (unwrap_behind_signature [] behind nothing).symm

/-- The result of `unwrap` on any bytes, by the first signature: `none` if there is no signature or
fewer than twenty bytes from it on, and otherwise the decrypted whole blocks cut to the length.  The
cipher never fails, and the bytes before the signature do not matter. -/
theorem unwrap_by_first_signature (blob : Bytes) :
    (unwrap blob = none ↔
        ¬signature <:+: blob ∨ ∃ i, FirstAt signature blob i ∧ blob.length - i < 20) ∧
      (∀ i, FirstAt signature blob i → 20 ≤ blob.length - i →
        ∃ plain, decrypt key (encryptedAt blob i) = .ok plain ∧
          plain.length = (blob.length - i - 12) / 8 * 8 ∧
          unwrap blob =
            some (plain.take (min (declaredAt blob i) ((blob.length - i - 12) / 8 * 8)))) ∧
      unwrapChecked blob = .ok (unwrap blob) ∧
      ∀ lead, ¬signature <:+: lead → signature <+: blob → unwrap (lead ++ blob) = unwrap blob :=
  ⟨unwrap_eq_none_iff blob, fun _ => unwrap_of_long, unwrapChecked_eq blob,
    fun lead => unwrap_lead lead blob⟩

def nineOfNineteen : Bytes :=
  signature ++ [9, 0, 0, 0] ++ [0x27, 0x31, 0x40, 0x1c, 0x9d, 0x93, 0x92, 0xba, 0x86, 0xbc, 0x49,
    0x8b, 0x3c, 0xf1, 0x9e, 0xcd] ++ [1, 2, 3]

theorem unwrap_by_first_signature_after_start :
    FirstAt signature (text "czczjz" ++ nineOfNineteen) 6 ∧
      unwrap (text "czczjz" ++ nineOfNineteen) = some [0, 1, 2, 3, 4, 5, 6, 7, 8] ∧
      unwrapChecked (text "czczjz" ++ nineOfNineteen) = .ok (some [0, 1, 2, 3, 4, 5, 6, 7, 8]) ∧
      unwrap nineOfNineteen = some [0, 1, 2, 3, 4, 5, 6, 7, 8] ∧
      unwrap ((text "czczjz" ++ nineOfNineteen).take 25) = none ∧
      ¬signature <:+: text "czczjz" ∧ unwrap (text "czczjz") = none := by
  have first : FirstAt signature (text "czczjz" ++ nineOfNineteen) 6 := ⟨by decide, by decide⟩
  have cut : FirstAt signature ((text "czczjz" ++ nineOfNineteen).take 25) 6 :=
    ⟨by decide, by decide⟩
  have absent : ¬signature <:+: text "czczjz" := by decide
  obtain ⟨_, present, checked, _⟩ := unwrap_by_first_signature (text "czczjz" ++ nineOfNineteen)
  obtain ⟨plain, decrypted, _, whole⟩ := present 6 first (by decide)
  have known : decrypt key (encryptedAt (text "czczjz" ++ nineOfNineteen) 6) =
      .ok [0, 1, 2, 3, 4, 5, 6, 7, 8, 9, 10, 11, 12, 13, 14, 15] := by
    have held : encryptedAt (text "czczjz" ++ nineOfNineteen) 6 = [0x27, 0x31, 0x40, 0x1c, 0x9d,
      0x93, 0x92, 0xba, 0x86, 0xbc, 0x49, 0x8b, 0x3c, 0xf1, 0x9e, 0xcd] := by decide
    rw [held]
    exact decrypt_of_encrypt rfl rfl encrypt_two_blocks
  have nine : min (declaredAt (text "czczjz" ++ nineOfNineteen) 6)
      (((text "czczjz" ++ nineOfNineteen).length - 6 - 12) / 8 * 8) = 9 := by decide
  rw [known] at decrypted
  cases decrypted
  rw [nine] at whole
  have alone : unwrap (text "czczjz" ++ nineOfNineteen) = unwrap nineOfNineteen :=
    (unwrap_by_first_signature nineOfNineteen).2.2.2 (text "czczjz") absent (by decide)
  have short := (unwrap_by_first_signature ((text "czczjz" ++ nineOfNineteen).take 25)).1.mpr
    (.inr ⟨6, cut, by decide⟩)
  have nothing := (unwrap_by_first_signature (text "czczjz")).1.mpr (.inl absent)
  exact ⟨first, whole, checked.trans (congrArg Except.ok whole), alone.symm.trans whole, short,
    absent, nothing⟩

end Payload

end LuaAsset
