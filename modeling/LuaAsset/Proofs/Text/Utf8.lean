import LuaAsset.Text.Utf8

/-! # Lossy decoding of UTF-8

`characterLength?` recognises exactly the encodings of characters (`characterLength?_encode`,
`exists_char_of_length`).  Only first bytes are no continuation bytes (`lead_and_tail`), so
encodings do not overlap, and `decodeLossy` keeps all of them in order (`decodeLossy_occurrences`).
-/

set_option autoImplicit false

namespace LuaAsset

namespace Utf8

open String (utf8EncodeChar)

/-! ## Bytes as numbers -/

theorem byte_ranges : ∀ c : UInt8,
    (isContinuation c = true ↔ 128 ≤ c.toNat ∧ c.toNat < 192) ∧
    ((c &&& 0xe0 == 0xc0) = true ↔ 192 ≤ c.toNat ∧ c.toNat < 224) ∧
    ((c &&& 0xf0 == 0xe0) = true ↔ 224 ≤ c.toNat ∧ c.toNat < 240) ∧
    ((c &&& 0xf8 == 0xf0) = true ↔ 240 ≤ c.toNat ∧ c.toNat < 248) :=
  forall_byte (by decide +kernel)

theorem isContinuation_iff (c : UInt8) :
    isContinuation c = true ↔ 128 ≤ c.toNat ∧ c.toNat < 192 := (byte_ranges c).1

theorem leads_two (c : UInt8) : (c &&& 0xe0 == 0xc0) = true ↔ 192 ≤ c.toNat ∧ c.toNat < 224 :=
  (byte_ranges c).2.1

theorem leads_three (c : UInt8) : (c &&& 0xf0 == 0xe0) = true ↔ 224 ≤ c.toNat ∧ c.toNat < 240 :=
  (byte_ranges c).2.2.1

theorem leads_four (c : UInt8) : (c &&& 0xf8 == 0xf0) = true ↔ 240 ≤ c.toNat ∧ c.toNat < 248 :=
  (byte_ranges c).2.2.2

theorem lt_ascii (c : UInt8) : c < 0x80 ↔ c.toNat < 128 := UInt8.lt_iff_toNat_lt

theorem toNat_continuation (n : Nat) : (continuation n).toNat = 128 + n % 64 := by
  rw [continuation, UInt8.toNat_ofNat']
  omega

theorem payload_continuation (n : Nat) : payload (continuation n) = n % 64 := by
  rw [payload, toNat_continuation]
  omega

theorem isContinuation_continuation (n : Nat) : isContinuation (continuation n) = true := by
  rw [isContinuation_iff, toNat_continuation]
  omega

theorem toNat_lead {n : Nat} (byte : n < 256) : (UInt8.ofNat n).toNat = n := by
  rw [UInt8.toNat_ofNat', Nat.mod_eq_of_lt byte]

theorem ofNat_eq {n : Nat} {c : UInt8} (same : n = c.toNat) : UInt8.ofNat n = c := by
  rw [same, UInt8.ofNat_toNat]

theorem continuation_eq {n : Nat} {c : UInt8} (continues : isContinuation c = true)
    (same : n % 64 = payload c) : continuation n = c := by
  obtain ⟨low, high⟩ := (isContinuation_iff c).mp continues
  rw [payload] at same
  exact ofNat_eq (by omega)

/-! ## The encoding of a character -/

section Encoding

variable {c : Char}

theorem encode_one (high : c.toNat < 0x80) : utf8EncodeChar c = [UInt8.ofNat c.toNat] :=
  if_pos (show c.toNat ≤ 0x7f by omega)

theorem continuation_comm (n : Nat) : UInt8.ofNat (n % 64 + 128) = continuation n := by
  rw [continuation, Nat.add_comm]

theorem encode_two (low : 0x80 ≤ c.toNat) (high : c.toNat < 0x800) :
    utf8EncodeChar c = [UInt8.ofNat (192 + c.toNat / 64), continuation c.toNat] := by
  have value : c.val.toNat = c.toNat := rfl
  simp only [utf8EncodeChar, value, continuation_comm]
  rw [if_neg (by omega), if_pos (by omega), Nat.mod_eq_of_lt (by omega), Nat.add_comm _ 192]

theorem encode_three (low : 0x800 ≤ c.toNat) (high : c.toNat < 0x10000) :
    utf8EncodeChar c =
      [UInt8.ofNat (224 + c.toNat / 4096), continuation (c.toNat / 64), continuation c.toNat] := by
  have value : c.val.toNat = c.toNat := rfl
  simp only [utf8EncodeChar, value, continuation_comm]
  rw [if_neg (by omega), if_neg (by omega), if_pos (by omega), Nat.mod_eq_of_lt (by omega),
    Nat.add_comm _ 224]

theorem toNat_le (c : Char) : c.toNat ≤ 0x10ffff := by
  have scalar : c.toNat < 0xd800 ∨ 0xdfff < c.toNat ∧ c.toNat < 0x110000 := c.valid
  omega

theorem isSurrogate_char (c : Char) : isSurrogate c.toNat = false := by
  have scalar : c.toNat < 0xd800 ∨ 0xdfff < c.toNat ∧ c.toNat < 0x110000 := c.valid
  simp only [isSurrogate, Bool.and_eq_false_iff, decide_eq_false_iff_not]
  omega

theorem encode_four (low : 0x10000 ≤ c.toNat) :
    utf8EncodeChar c =
      [UInt8.ofNat (240 + c.toNat / 262144), continuation (c.toNat / 4096),
        continuation (c.toNat / 64), continuation c.toNat] := by
  have value : c.val.toNat = c.toNat := rfl
  have high := toNat_le c
  simp only [utf8EncodeChar, value, continuation_comm]
  rw [if_neg (by omega), if_neg (by omega), if_neg (by omega), Nat.mod_eq_of_lt (by omega),
    Nat.add_comm _ 240]

/-- The four lengths of an encoding with their scalar values. -/
theorem encode_cases (c : Char) :
    (c.toNat < 0x80 ∧ utf8EncodeChar c = [UInt8.ofNat c.toNat]) ∨
    (0x80 ≤ c.toNat ∧ c.toNat < 0x800 ∧
      utf8EncodeChar c = [UInt8.ofNat (192 + c.toNat / 64), continuation c.toNat]) ∨
    (0x800 ≤ c.toNat ∧ c.toNat < 0x10000 ∧
      utf8EncodeChar c = [UInt8.ofNat (224 + c.toNat / 4096), continuation (c.toNat / 64),
        continuation c.toNat]) ∨
    (0x10000 ≤ c.toNat ∧ c.toNat ≤ 0x10ffff ∧
      utf8EncodeChar c = [UInt8.ofNat (240 + c.toNat / 262144), continuation (c.toNat / 4096),
        continuation (c.toNat / 64), continuation c.toNat]) := by
  by_cases one : c.toNat < 0x80
  · exact .inl ⟨one, encode_one one⟩
  by_cases two : c.toNat < 0x800
  · have low := Nat.le_of_not_lt one
    exact .inr (.inl ⟨low, two, encode_two low two⟩)
  by_cases three : c.toNat < 0x10000
  · have low := Nat.le_of_not_lt two
    exact .inr (.inr (.inl ⟨low, three, encode_three low three⟩))
  · have low := Nat.le_of_not_lt three
    exact .inr (.inr (.inr ⟨low, toNat_le c, encode_four low⟩))

end Encoding

theorem exists_char {n : Nat} (valid : n.isValidChar) : ∃ c : Char, c.toNat = n :=
  ⟨Char.ofNatAux n valid, rfl⟩

/-! ## The bytes of a code point -/

section CodePoint

variable {n : Nat}

theorem or_lead {i k m : Nat} (small : k < 2 ^ i) : (2 ^ i * m ||| k) = 2 ^ i * m + k :=
  (Nat.two_pow_add_eq_or_of_lt small m).symm

theorem encodeScalar_one (high : n < 0x80) : encodeScalar n = [UInt8.ofNat n] := if_pos high

theorem encodeScalar_two (low : 0x80 ≤ n) (high : n < 0x800) :
    encodeScalar n = [UInt8.ofNat (192 + n / 64), continuation n] := by
  rw [encodeScalar, if_neg (by omega), if_pos high,
    show (0xc0 ||| n / 64) = 192 + n / 64 from or_lead (i := 6) (m := 3) (by omega)]

theorem encodeScalar_three (low : 0x800 ≤ n) (high : n < 0x10000) :
    encodeScalar n =
      [UInt8.ofNat (224 + n / 4096), continuation (n / 64), continuation n] := by
  rw [encodeScalar, if_neg (by omega), if_neg (by omega), if_pos high,
    show (0xe0 ||| n / 4096) = 224 + n / 4096 from or_lead (i := 5) (m := 7) (by omega)]

theorem encodeScalar_more (low : 0x10000 ≤ n) :
    encodeScalar n =
      [UInt8.ofNat (0xf0 ||| n / 262144), continuation (n / 4096), continuation (n / 64),
        continuation n] := by
  rw [encodeScalar, if_neg (by omega), if_neg (by omega), if_neg (by omega)]

theorem encodeScalar_four (low : 0x10000 ≤ n) (high : n < 0x200000) :
    encodeScalar n =
      [UInt8.ofNat (240 + n / 262144), continuation (n / 4096), continuation (n / 64),
        continuation n] := by
  rw [encodeScalar_more low,
    show (0xf0 ||| n / 262144) = 240 + n / 262144 from or_lead (i := 4) (m := 15) (by omega)]

end CodePoint

theorem encodeScalar_toNat (c : Char) : encodeScalar c.toNat = utf8EncodeChar c := by
  obtain ⟨one, bytes⟩ | ⟨low, two, bytes⟩ | ⟨low, three, bytes⟩ | ⟨low, four, bytes⟩ :=
    encode_cases c
  · rw [bytes, encodeScalar_one one]
  · rw [bytes, encodeScalar_two low two]
  · rw [bytes, encodeScalar_three low three]
  · rw [bytes, encodeScalar_four low (by omega)]

theorem encode_ne_nil (c : Char) : utf8EncodeChar c ≠ [] := by
  obtain ⟨_, bytes⟩ | ⟨_, _, bytes⟩ | ⟨_, _, bytes⟩ | ⟨_, _, bytes⟩ := encode_cases c
  all_goals
    rw [bytes]
    exact List.cons_ne_nil _ _

/-- The first byte of an encoding is no continuation byte, and all others are. -/
theorem lead_and_tail (c : Char) : ∃ lead tail, utf8EncodeChar c = lead :: tail ∧
    isContinuation lead = false ∧ ∀ d ∈ tail, isContinuation d = true := by
  have other : ∀ n, n < 256 → n < 128 ∨ 192 ≤ n → isContinuation (UInt8.ofNat n) = false := by
    intro n byte apart
    rw [← Bool.not_eq_true, isContinuation_iff, toNat_lead byte]
    omega
  obtain ⟨_, bytes⟩ | ⟨_, _, bytes⟩ | ⟨_, _, bytes⟩ | ⟨_, _, bytes⟩ := encode_cases c
  all_goals
    refine ⟨_, _, bytes, other _ (by omega) (by omega), ?_⟩
    simp [isContinuation_continuation]

/-! ## Recognising characters -/

theorem characterLength?_encode (c : Char) (rest : Bytes) :
    characterLength? (utf8EncodeChar c ++ rest) = some (utf8EncodeChar c).length := by
  obtain ⟨one, bytes⟩ | ⟨low, two, bytes⟩ | ⟨low, three, bytes⟩ | ⟨low, four, bytes⟩ :=
    encode_cases c
  all_goals
    rw [bytes]
    simp only [characterLength?, List.cons_append, List.nil_append, List.length_cons,
      List.length_nil, lt_ascii, leads_two, leads_three, leads_four, payload_continuation,
      isContinuation_continuation, Bool.true_and]
  · rw [toNat_lead (by omega), if_pos (by omega)]
  · have value : (192 + c.toNat / 64) % 32 * 64 + c.toNat % 64 = c.toNat := by omega
    rw [toNat_lead (by omega), if_neg (by omega), if_pos (by omega), value]
    simp [low]
  · have value : ((224 + c.toNat / 4096) % 16 * 64 + c.toNat / 64 % 64) * 64 + c.toNat % 64 =
        c.toNat := by omega
    rw [toNat_lead (by omega), if_neg (by omega), if_neg (by omega), if_pos (by omega), value]
    simp [low, isSurrogate_char]
  · have value : (((240 + c.toNat / 262144) % 8 * 64 + c.toNat / 4096 % 64) * 64 +
        c.toNat / 64 % 64) * 64 + c.toNat % 64 = c.toNat := by omega
    rw [toNat_lead (by omega), if_neg (by omega), if_neg (by omega), if_neg (by omega),
      if_pos (by omega), value]
    simp [low, four]

section Decoding

variable {a b c d : UInt8}

theorem payload_lt (c : UInt8) : payload c < 64 := Nat.mod_lt _ (by decide)

theorem exists_char_one (ascii : a.toNat < 128) : ∃ x, utf8EncodeChar x = [a] := by
  obtain ⟨x, value⟩ := exists_char (n := a.toNat) (.inl (by omega))
  refine ⟨x, ?_⟩
  rw [encode_one (by omega), value, UInt8.ofNat_toNat]

theorem exists_char_two (lead : 192 ≤ a.toNat ∧ a.toNat < 224) (second : isContinuation b = true)
    (shortest : 0x80 ≤ a.toNat % 32 * 64 + payload b) : ∃ x, utf8EncodeChar x = [a, b] := by
  have low := payload_lt b
  obtain ⟨x, value⟩ := exists_char (n := a.toNat % 32 * 64 + payload b) (.inl (by omega))
  refine ⟨x, ?_⟩
  rw [encode_two (by omega) (by omega), ofNat_eq (c := a) (by omega),
    continuation_eq second (by omega)]

theorem exists_char_three (lead : 224 ≤ a.toNat ∧ a.toNat < 240) (second : isContinuation b = true)
    (third : isContinuation c = true)
    (shortest : 0x800 ≤ (a.toNat % 16 * 64 + payload b) * 64 + payload c)
    (scalar : isSurrogate ((a.toNat % 16 * 64 + payload b) * 64 + payload c) = false) :
    ∃ x, utf8EncodeChar x = [a, b, c] := by
  have middle := payload_lt b
  have low := payload_lt c
  simp only [isSurrogate, Bool.and_eq_false_iff, decide_eq_false_iff_not] at scalar
  obtain ⟨x, value⟩ := exists_char (n := (a.toNat % 16 * 64 + payload b) * 64 + payload c)
    (by unfold Nat.isValidChar; omega)
  refine ⟨x, ?_⟩
  rw [encode_three (by omega) (by omega), ofNat_eq (c := a) (by omega),
    continuation_eq second (by omega), continuation_eq third (by omega)]

theorem exists_char_four (lead : 240 ≤ a.toNat ∧ a.toNat < 248) (second : isContinuation b = true)
    (third : isContinuation c = true) (fourth : isContinuation d = true)
    (shortest :
      0x10000 ≤ ((a.toNat % 8 * 64 + payload b) * 64 + payload c) * 64 + payload d)
    (scalar : ((a.toNat % 8 * 64 + payload b) * 64 + payload c) * 64 + payload d ≤ 0x10ffff) :
    ∃ x, utf8EncodeChar x = [a, b, c, d] := by
  have high := payload_lt b
  have middle := payload_lt c
  have low := payload_lt d
  obtain ⟨x, value⟩ := exists_char
    (n := ((a.toNat % 8 * 64 + payload b) * 64 + payload c) * 64 + payload d)
    (.inr ⟨by omega, by omega⟩)
  refine ⟨x, ?_⟩
  rw [encode_four (by omega), ofNat_eq (c := a) (by omega), continuation_eq second (by omega),
    continuation_eq third (by omega), continuation_eq fourth (by omega)]

end Decoding

/-- A recognised sequence is the encoding of a character. -/
theorem exists_char_of_length {s : Bytes} {n : Nat} (found : characterLength? s = some n) :
    ∃ c rest, s = utf8EncodeChar c ++ rest ∧ (utf8EncodeChar c).length = n := by
  have encoded : ∀ {w rest : Bytes}, s = w ++ rest → w.length = n →
      (∃ c, utf8EncodeChar c = w) →
      ∃ c rest, s = utf8EncodeChar c ++ rest ∧ (utf8EncodeChar c).length = n := by
    rintro w rest split length ⟨c, rfl⟩
    exact ⟨c, rest, split, length⟩
  match s with
  | [] => cases found
  | a :: rest =>
      simp only [characterLength?, lt_ascii, leads_two, leads_three, leads_four] at found
      split at found
      · rename_i ascii
        exact encoded (w := [a]) rfl (Option.some.inj found) (exists_char_one ascii)
      split at found
      · rename_i lead
        split at found
        · rename_i b rest
          simp only [Option.ite_none_right_eq_some, Bool.and_eq_true, decide_eq_true_eq] at found
          obtain ⟨⟨second, shortest⟩, length⟩ := found
          exact encoded (w := [a, b]) rfl (Option.some.inj length)
            (exists_char_two lead second shortest)
        · cases found
      split at found
      · rename_i lead
        split at found
        · rename_i b c rest
          simp only [Option.ite_none_right_eq_some, Bool.and_eq_true, decide_eq_true_eq,
            Bool.not_eq_true'] at found
          obtain ⟨⟨⟨⟨second, third⟩, shortest⟩, scalar⟩, length⟩ := found
          exact encoded (w := [a, b, c]) rfl (Option.some.inj length)
            (exists_char_three lead second third shortest scalar)
        · cases found
      split at found
      · rename_i lead
        split at found
        · rename_i b c d rest
          simp only [Option.ite_none_right_eq_some, Bool.and_eq_true, decide_eq_true_eq] at found
          obtain ⟨⟨⟨⟨⟨second, third⟩, fourth⟩, shortest⟩, scalar⟩, length⟩ := found
          exact encoded (w := [a, b, c, d]) rfl (Option.some.inj length)
            (exists_char_four lead second third fourth shortest scalar)
        · cases found
      · cases found

theorem characterLength?_eq_none_iff {s : Bytes} :
    characterLength? s = none ↔ ∀ c, ¬utf8EncodeChar c <+: s := by
  constructor
  · rintro nothing c ⟨rest, rfl⟩
    rw [characterLength?_encode] at nothing
    cases nothing
  · intro apart
    cases found : characterLength? s with
    | none => rfl
    | some n =>
        obtain ⟨c, rest, rfl, _⟩ := exists_char_of_length found
        exact absurd (List.prefix_append _ rest) (apart c)

theorem char_unique {c d : Char} {s : Bytes} (first : utf8EncodeChar c <+: s)
    (second : utf8EncodeChar d <+: s) : c = d := by
  -- both encodings are as long as what is recognised, and an encoding tells its character
  obtain ⟨after, rfl⟩ := first
  have length := characterLength?_encode c after
  obtain ⟨other, same⟩ := second
  rw [← same, characterLength?_encode, Option.some.injEq] at length
  have bytes : utf8EncodeChar d = utf8EncodeChar c := (List.append_inj same length).1
  have texts : String.ofList [c] = String.ofList [d] := by
    rw [← String.toByteArray_inj, String.toByteArray_ofList, String.toByteArray_ofList]
    simp only [List.utf8Encode, List.flatMap_singleton, bytes]
  exact List.singleton_inj.mp (String.ofList_inj.mp texts)

/-! ## Lossy decoding -/

theorem keepCharacters_owed (w rest : Bytes) :
    keepCharacters w.length (w ++ rest) = w ++ keepCharacters 0 rest := by
  induction w with
  | nil => rfl
  | cons c w ih => exact congrArg (c :: ·) ih

theorem decodeLossy_encode (c : Char) (rest : Bytes) :
    decodeLossy (utf8EncodeChar c ++ rest) = utf8EncodeChar c ++ decodeLossy rest := by
  have recognised := characterLength?_encode c rest
  obtain ⟨lead, tail, bytes, _⟩ := lead_and_tail c
  rw [bytes, List.cons_append] at recognised
  rw [bytes, decodeLossy, List.cons_append, keepCharacters, recognised]
  exact congrArg (lead :: ·) (keepCharacters_owed tail rest)

theorem decodeLossy_dropped {c : UInt8} {rest : Bytes}
    (nothing : characterLength? (c :: rest) = none) :
    decodeLossy (c :: rest) = decodeLossy rest := by
  rw [decodeLossy, keepCharacters, nothing]
  rfl

theorem decodeLossy_text (cs : List Char) :
    decodeLossy (cs.flatMap utf8EncodeChar) = cs.flatMap utf8EncodeChar := by
  induction cs with
  | nil => rfl
  | cons c cs ih => rw [List.flatMap_cons, decodeLossy_encode, ih]

/-- The characters encoded anywhere in a byte string, with their places, in order. -/
structure Occurrences (s : Bytes) (found : List (Nat × Char)) : Prop where
  ordered : found.Pairwise fun first second => first.1 < second.1
  all : ∀ i c, (i, c) ∈ found ↔ utf8EncodeChar c <+: s.drop i

def further (k : Nat) (found : Nat × Char) : Nat × Char := (found.1 + k, found.2)

theorem occurrences_nil : Occurrences [] [] where
  ordered := List.Pairwise.nil
  all i c := by simp

/-- The occurrences in a concatenation: those that start in the first part, then those of the
second. -/
theorem Occurrences.append {w rest : Bytes} {front later : List (Nat × Char)}
    (ordered : front.Pairwise fun first second => first.1 < second.1)
    (within : ∀ a ∈ front, a.1 < w.length)
    (all : ∀ i < w.length, ∀ c, (i, c) ∈ front ↔ utf8EncodeChar c <+: (w ++ rest).drop i)
    (behind : Occurrences rest later) :
    Occurrences (w ++ rest) (front ++ later.map (further w.length)) where
  ordered := by
    refine List.pairwise_append.mpr ⟨ordered, ?_, ?_⟩
    · rw [List.pairwise_map]
      exact behind.ordered.imp fun before => Nat.add_lt_add_right before w.length
    · intro a inFront b moved
      obtain ⟨old, _, rfl⟩ := List.mem_map.mp moved
      exact Nat.lt_of_lt_of_le (within a inFront) (Nat.le_add_left _ _)
  all i c := by
    have moved : (i, c) ∈ later.map (further w.length) ↔
        w.length ≤ i ∧ (i - w.length, c) ∈ later := by
      rw [List.mem_map]
      constructor
      · rintro ⟨⟨j, d⟩, member, same⟩
        obtain ⟨rfl, rfl⟩ := Prod.mk.inj same
        rw [Nat.add_sub_cancel]
        exact ⟨Nat.le_add_left _ _, member⟩
      · rintro ⟨beyond, member⟩
        exact ⟨_, member, by rw [further, Nat.sub_add_cancel beyond]⟩
    rw [List.mem_append, moved]
    by_cases inside : i < w.length
    · rw [all i inside c]
      exact or_iff_left fun beyond => Nat.not_le_of_lt inside beyond.1
    · have beyond := Nat.le_of_not_lt inside
      rw [List.drop_append, List.drop_eq_nil_of_le beyond, List.nil_append, behind.all]
      constructor
      · rintro (inFront | ⟨_, there⟩)
        · exact absurd (within _ inFront) inside
        · exact there
      · exact fun there => .inr ⟨beyond, there⟩

theorem not_encoded_of_continuation {d : UInt8} (continues : isContinuation d = true) (c : Char)
    (rest : Bytes) : ¬utf8EncodeChar c <+: d :: rest := by
  obtain ⟨lead, tail, bytes, starts, _⟩ := lead_and_tail c
  rw [bytes, List.cons_prefix_cons]
  rintro ⟨rfl, _⟩
  rw [continues] at starts
  cases starts

theorem occurrences_encode {c : Char} {rest : Bytes} {later : List (Nat × Char)}
    (behind : Occurrences rest later) :
    Occurrences (utf8EncodeChar c ++ rest)
      ((0, c) :: later.map (further (utf8EncodeChar c).length)) := by
  have positive := List.length_pos_iff.mpr (encode_ne_nil c)
  show Occurrences _ ([(0, c)] ++ later.map (further (utf8EncodeChar c).length))
  refine Occurrences.append (List.pairwise_singleton _ _) ?_ ?_ behind
  · intro a member
    obtain rfl := List.mem_singleton.mp member
    exact positive
  · intro i inside d
    rw [List.mem_singleton, Prod.mk.injEq]
    cases i with
    | zero =>
        rw [List.drop_zero]
        constructor
        · rintro ⟨_, rfl⟩
          exact List.prefix_append _ rest
        · exact fun there => ⟨rfl, char_unique there (List.prefix_append _ rest)⟩
    | succ j =>
        -- within the encoding there are continuation bytes only, where no character starts
        obtain ⟨lead, tail, bytes, _, continues⟩ := lead_and_tail c
        rw [bytes, List.length_cons] at inside
        have within : j < tail.length := Nat.lt_of_succ_lt_succ inside
        rw [bytes, List.cons_append, List.drop_succ_cons,
          List.drop_append_of_le_length (Nat.le_of_lt within), List.drop_eq_getElem_cons within]
        refine iff_of_false (fun both => absurd both.1 (Nat.succ_ne_zero j)) ?_
        exact not_encoded_of_continuation (continues _ (List.getElem_mem within)) d _

theorem occurrences_dropped {c : UInt8} {rest : Bytes} {later : List (Nat × Char)}
    (nothing : characterLength? (c :: rest) = none) (behind : Occurrences rest later) :
    Occurrences (c :: rest) (later.map (further 1)) := by
  show Occurrences ([c] ++ rest) ([] ++ later.map (further [c].length))
  refine Occurrences.append List.Pairwise.nil (by simp) ?_ behind
  intro i inside d
  obtain rfl : i = 0 := Nat.lt_one_iff.mp inside
  exact iff_of_false List.not_mem_nil (characterLength?_eq_none_iff.mp nothing d)

theorem exists_occurrences (s : Bytes) : ∃ found, Occurrences s found ∧
    decodeLossy s = found.flatMap fun a => utf8EncodeChar a.2 := by
  -- by the length: a character that is recognised is skipped as a whole
  induction size : s.length using Nat.strongRecOn generalizing s with
  | ind n ih =>
      cases length : characterLength? s with
      | some k =>
          obtain ⟨c, rest, rfl, _⟩ := exists_char_of_length length
          have positive := List.length_pos_iff.mpr (encode_ne_nil c)
          rw [List.length_append] at size
          obtain ⟨later, behind, kept⟩ := ih rest.length (by omega) rest rfl
          refine ⟨_, occurrences_encode behind, ?_⟩
          rw [decodeLossy_encode, kept, List.flatMap_cons, List.flatMap_map]
          rfl
      | none =>
          cases s with
          | nil => exact ⟨[], occurrences_nil, rfl⟩
          | cons c rest =>
              rw [List.length_cons] at size
              obtain ⟨later, behind, kept⟩ := ih rest.length (by omega) rest rfl
              refine ⟨_, occurrences_dropped length behind, ?_⟩
              rw [decodeLossy_dropped length, kept, List.flatMap_map]
              rfl

/-- Lossy decoding keeps exactly the characters encoded in a byte string, in order.  The result is
valid, it equals the input iff the input is valid, and decoding it again drops nothing. -/
theorem decodeLossy_occurrences (s : Bytes) :
    (∃ found, Occurrences s found ∧ decodeLossy s = found.flatMap fun a => utf8EncodeChar a.2) ∧
    (∃ cs : List Char, decodeLossy s = cs.flatMap utf8EncodeChar) ∧
    (decodeLossy s = s ↔ ∃ cs : List Char, s = cs.flatMap utf8EncodeChar) ∧
    decodeLossy (decodeLossy s) = decodeLossy s := by
  obtain ⟨found, occurrences, kept⟩ := exists_occurrences s
  have isText : decodeLossy s = (found.map Prod.snd).flatMap utf8EncodeChar := by
    rw [kept, List.flatMap_map]
  refine ⟨⟨found, occurrences, kept⟩, ⟨_, isText⟩, ⟨fun same => ?_, ?_⟩, ?_⟩
  · exact ⟨_, same.symm.trans isText⟩
  · rintro ⟨cs, rfl⟩
    exact decodeLossy_text cs
  · rw [isText]
    exact decodeLossy_text _

end Utf8

end LuaAsset
