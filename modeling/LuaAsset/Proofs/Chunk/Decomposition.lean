import LuaAsset.Chunk
import Mathlib.Data.List.TakeWhile

/-! # The parts of an encoded script

An encoded script is a marker, an opaque region, a path, at least one zero byte, and instructions
(`Encoded`).  The first zero after the region ends the path, and the next nonzero byte starts the
instructions; so the decomposition is unique (`Encoded.toBytes_injective`), and `synthesize`
succeeds exactly on these scripts (`synthesize_encoded`). -/

set_option autoImplicit false

namespace LuaAsset

namespace Chunk

@[ext]
structure Encoded where
  region : Bytes
  path : Bytes
  zeros : Nat
  instructions : Bytes
  length_region : region.length = opaqueSize
  zero_free : 0 ∉ path
  zeros_pos : 0 < zeros
  instructions_head : instructions.head? ≠ some 0

namespace Encoded

def toBytes (e : Encoded) : Bytes :=
  marker :: (e.region ++ (e.path ++ (List.replicate e.zeros 0 ++ e.instructions)))

/-! ## Ends of the parts -/

theorem drop_toBytes (e : Encoded) :
    e.toBytes.drop (1 + opaqueSize) =
      e.path ++ (List.replicate e.zeros 0 ++ e.instructions) := by
  rw [toBytes, Nat.add_comm, List.drop_succ_cons, ← e.length_region, List.drop_left]

theorem zeros_eq_cons (e : Encoded) :
    List.replicate e.zeros 0 ++ e.instructions =
      0 :: (List.replicate (e.zeros - 1) 0 ++ e.instructions) := by
  obtain ⟨n, same⟩ := Nat.exists_eq_succ_of_ne_zero e.zeros_pos.ne'
  rw [same, List.replicate_succ, List.cons_append, Nat.succ_sub_one]

theorem path_bytes (e : Encoded) : ∀ c ∈ e.path, (c != 0) = true := by
  intro c member
  rw [bne_iff_ne]
  rintro rfl
  exact e.zero_free member

theorem takeWhile_path (e : Encoded) :
    (e.path ++ (List.replicate e.zeros 0 ++ e.instructions)).takeWhile (· != 0) = e.path := by
  rw [List.takeWhile_append_of_pos e.path_bytes, zeros_eq_cons]
  simp

theorem dropWhile_path (e : Encoded) :
    (e.path ++ (List.replicate e.zeros 0 ++ e.instructions)).dropWhile (· != 0) =
      List.replicate e.zeros 0 ++ e.instructions := by
  rw [List.dropWhile_append_of_pos e.path_bytes, zeros_eq_cons]
  simp

theorem dropWhile_zeros (e : Encoded) :
    (List.replicate e.zeros 0 ++ e.instructions).dropWhile (· == 0) = e.instructions := by
  rw [List.dropWhile_append_of_pos (by simp)]
  have head := e.instructions_head
  cases start : e.instructions with
  | nil => rfl
  | cons c rest =>
      rw [start] at head
      have other : c ≠ 0 := by simpa using head
      simp [other]

/-- The bytes after the region determine the path and the instructions, and the length determines
the zero padding. -/
theorem toBytes_injective {e other : Encoded} (same : e.toBytes = other.toBytes) : e = other := by
  have behind : e.path ++ (List.replicate e.zeros 0 ++ e.instructions) =
      other.path ++ (List.replicate other.zeros 0 ++ other.instructions) := by
    rw [← drop_toBytes, ← drop_toBytes, same]
  have path : e.path = other.path := by
    rw [← takeWhile_path e, behind, takeWhile_path]
  have tail : List.replicate e.zeros 0 ++ e.instructions =
      List.replicate other.zeros 0 ++ other.instructions := by
    rw [← dropWhile_path e, behind, dropWhile_path]
  have instructions : e.instructions = other.instructions := by
    rw [← dropWhile_zeros e, tail, dropWhile_zeros]
  have zeros : e.zeros = other.zeros := by
    have length := congrArg List.length tail
    rw [instructions] at length
    simpa using length
  have region : e.region = other.region := by
    have inner := (List.cons.inj same).2
    exact (List.append_inj inner (e.length_region.trans other.length_region.symm)).1
  exact Encoded.ext region path zeros instructions

end Encoded

/-! ## The header -/

theorem kind_of_synthesize (blob : Bytes) (refusal : Failure)
    (refused : synthesize blob = .error refusal) : refusal.kind = .format := by
  unfold synthesize at refused
  split at refused
  · cases refused
    rfl
  · split at refused
    · cases refused
      rfl
    · cases refused

theorem synthesize_toBytes (e : Encoded) :
    synthesize e.toBytes = .ok (Header.toBytes {} ++ e.instructions) := by
  have long : ¬(e.toBytes.length < 1 + opaqueSize || !hasMarker e.toBytes) = true := by
    simp [Encoded.toBytes, hasMarker, e.length_region]
    omega
  rw [synthesize, if_neg long, e.drop_toBytes, e.dropWhile_path]
  have ended := e.dropWhile_zeros
  rw [e.zeros_eq_cons] at ended ⊢
  exact congrArg (fun rest => Except.ok (Header.toBytes {} ++ rest)) ended

theorem exists_encoded_of_terminated {behind rest : Bytes} {terminator : UInt8}
    (enough : opaqueSize ≤ behind.length)
    (found : (behind.drop opaqueSize).dropWhile (· != 0) = terminator :: rest) :
    ∃ e : Encoded, e.toBytes = marker :: behind := by
  have ended : terminator = 0 := by
    have stop := List.head?_dropWhile_not (· != 0) (behind.drop opaqueSize)
    rw [found] at stop
    simpa using stop
  subst ended
  let zeros := (0 :: rest).takeWhile (· == 0)
  have repeated : zeros = List.replicate zeros.length 0 := by
    refine List.eq_replicate_of_mem fun c member => ?_
    simpa using List.mem_takeWhile_imp member
  let e : Encoded :=
    { region := behind.take opaqueSize
      path := (behind.drop opaqueSize).takeWhile (· != 0)
      zeros := zeros.length
      instructions := (0 :: rest).dropWhile (· == 0)
      length_region := List.length_take_of_le enough
      zero_free := fun member => by simpa using List.mem_takeWhile_imp member
      zeros_pos := by simp [zeros]
      instructions_head := by
        have stop := List.head?_dropWhile_not (· == 0) (0 :: rest)
        intro head
        rw [head] at stop
        simp at stop }
  refine ⟨e, ?_⟩
  have tail : List.replicate zeros.length 0 ++ e.instructions = 0 :: rest := by
    rw [← repeated]
    exact List.takeWhile_append_dropWhile
  calc e.toBytes
      = marker :: (behind.take opaqueSize ++ ((behind.drop opaqueSize).takeWhile (· != 0) ++
          (List.replicate zeros.length 0 ++ e.instructions))) := rfl
    _ = marker :: (behind.take opaqueSize ++ behind.drop opaqueSize) := by
        rw [tail, ← found, List.takeWhile_append_dropWhile]
    _ = marker :: behind := by rw [List.take_append_drop]

theorem exists_encoded {blob chunk : Bytes} (made : synthesize blob = .ok chunk) :
    ∃ e : Encoded, e.toBytes = blob := by
  rw [synthesize] at made
  split at made
  · cases made
  rename_i fits
  split at made
  · cases made
  rename_i terminator rest found
  obtain ⟨long, marked⟩ : 1 + opaqueSize ≤ blob.length ∧ blob.head? = some marker := by
    simpa [hasMarker] using fits
  obtain ⟨behind, rfl⟩ := List.head?_eq_some_iff.mp marked
  rw [Nat.add_comm, List.drop_succ_cons] at found
  rw [List.length_cons] at long
  exact exists_encoded_of_terminated (by omega) found

/-- On the bytes of an `Encoded` script `synthesize` succeeds and puts a header in front of the
instructions.  A script is of this form in at most one way; any other one is a format failure. -/
theorem synthesize_encoded :
    (∀ e : Encoded, synthesize e.toBytes = .ok (Header.toBytes {} ++ e.instructions)) ∧
    ∀ blob : Bytes, (∃! e : Encoded, e.toBytes = blob) ∨
      (¬∃ e : Encoded, e.toBytes = blob) ∧
        ∃ failure, synthesize blob = .error failure ∧ failure.kind = .format := by
  refine ⟨synthesize_toBytes, fun blob => ?_⟩
  cases outcome : synthesize blob with
  | ok chunk =>
      obtain ⟨e, rfl⟩ := exists_encoded outcome
      exact .inl ⟨e, rfl, fun other same => Encoded.toBytes_injective same⟩
  | error failure =>
      refine .inr ⟨?_, failure, rfl, kind_of_synthesize blob failure outcome⟩
      rintro ⟨e, rfl⟩
      rw [synthesize_toBytes] at outcome
      cases outcome

/-- Zeros in the region and an empty path: the first zero after the region ends the path, and the
padding may run to the end. -/
example : synthesize (marker :: List.replicate opaqueSize 0 ++ [0, 0]) =
    .ok (Header.toBytes {}) := by
  decide +kernel

end Chunk

end LuaAsset
