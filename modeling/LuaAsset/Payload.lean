import LuaAsset.Cipher

/-! # Wrapped payloads

A wrapped payload is a signature, the length of the plain text in four bytes, and the encrypted
plain text padded with zeros to whole blocks; anything may precede it.  `Payload.unwrap` takes the
first signature, drops a partial block, decrypts, and cuts to the length.  `Payload.wrap` is the
converse. -/

set_option autoImplicit false

namespace LuaAsset

namespace Payload

def signature : Bytes := text "czjzgqde"

def key : Bytes := [2, 5, 9, 3, 6, 1, 0, 1]

/-- A number in four bytes, low byte first, truncated. -/
def littleEndian32 (n : Nat) : Bytes :=
  (List.range 4).map fun i => UInt8.ofNat (n / 256 ^ i % 256)

def littleEndianValue (s : Bytes) : Nat := s.foldr (fun c n => c.toNat + 256 * n) 0

def wholeBlocks (s : Bytes) : Bytes := s.take (s.length / Cipher.blockSize * Cipher.blockSize)

def padded (s : Bytes) : Bytes :=
  let blocks := (s.length + Cipher.blockSize - 1) / Cipher.blockSize
  s ++ List.replicate (blocks * Cipher.blockSize - s.length) 0

/-- The plain text of the first payload; `none` without a signature, a length, or a whole block
after it. -/
def unwrap (blob : Bytes) : Option Bytes :=
  match splitAtFirst signature blob with
  | none => none
  | some (_, behind) =>
      let encrypted := wholeBlocks (behind.drop 4)
      if encrypted.isEmpty then none
      else
        some ((Cipher.blocks (Cipher.schedule key .decrypt) encrypted).take
          (littleEndianValue (behind.take 4)))

def framed (lead : Bytes) (n : Nat) (encrypted : Bytes) : Bytes :=
  lead ++ signature ++ littleEndian32 n ++ encrypted

def wrapped (plain lead : Bytes) : Bytes :=
  framed lead plain.length (Cipher.blocks (Cipher.schedule key .encrypt) (padded plain))

/-- A lead followed by the payload of a plain text. -/
def wrap (plain lead : Bytes) : Except Failure Bytes :=
  if plain.length < 2 ^ 32 then .ok (wrapped plain lead) else .error .payloadTooLarge

end Payload

end LuaAsset
