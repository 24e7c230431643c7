import LuaAsset.Cipher.Schedule
import LuaAsset.Failure

/-! # The block cipher on byte strings

`Cipher.encrypt` and `Cipher.decrypt` take a key of eight bytes and data of whole blocks; the key is
checked first (`run_eq_error_iff`). -/

set_option autoImplicit false

namespace LuaAsset

namespace Cipher

def keySize : Nat := 8

def blockSize : Nat := 8

def scheduled (key : Bytes) (direction : Direction) : Except Failure (List RoundKey) :=
  if key.length = keySize then .ok (schedule key direction) else .error (.keyLength key.length)

def crypt (keys : List RoundKey) (data : Bytes) : Except Failure Bytes :=
  if data.length % blockSize = 0 then .ok (blocks keys data)
  else .error (.dataLength data.length)

def run (direction : Direction) (key data : Bytes) : Except Failure Bytes :=
  match scheduled key direction with
  | .ok keys => crypt keys data
  | .error failure => .error failure

def encrypt (key data : Bytes) : Except Failure Bytes := run .encrypt key data

def decrypt (key data : Bytes) : Except Failure Bytes := run .decrypt key data

theorem run_eq_error_iff (direction : Direction) (key data : Bytes) (failure : Failure) :
    run direction key data = .error failure ↔
      (key.length ≠ keySize ∧ failure = .keyLength key.length) ∨
        (key.length = keySize ∧ data.length % blockSize ≠ 0 ∧
          failure = .dataLength data.length) := by
  unfold run scheduled crypt
  by_cases hk : key.length = keySize <;> by_cases hd : data.length % blockSize = 0 <;>
    simp [hk, hd, eq_comm]

end Cipher

end LuaAsset
