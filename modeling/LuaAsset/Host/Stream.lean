import LuaAsset.Bytes

/-! # Streams

The contents of an open file: finite bytes, followed by bytes that repeat without end. -/

set_option autoImplicit false

namespace LuaAsset

structure Stream where
  once : Bytes
  cycle : Bytes
  deriving DecidableEq, Repr, Inhabited

namespace Stream

def ofBytes (s : Bytes) : Stream := ⟨s, []⟩

def empty : Stream := ofBytes []

def endless (cycle : Bytes) : Stream := ⟨[], cycle⟩

def isEndless (s : Stream) : Bool := !s.cycle.isEmpty

def isEmpty (s : Stream) : Bool := s.once.isEmpty && !s.isEndless

def repeated (cycle : Bytes) (n : Nat) : Bytes :=
  (List.replicate (n / cycle.length + 1) cycle).flatten.take n

def take (s : Stream) (n : Nat) : Bytes :=
  let known := s.once.take n
  if s.isEndless then known ++ repeated s.cycle (n - known.length) else known

def drop (s : Stream) (n : Nat) : Stream :=
  if n ≤ s.once.length then { s with once := s.once.drop n }
  else ⟨[], s.cycle.rotateLeft ((n - s.once.length) % s.cycle.length)⟩

/-- Concatenation; nothing follows an endless stream. -/
def append (s t : Stream) : Stream := if s.isEndless then s else ⟨s.once ++ t.once, t.cycle⟩

instance : Append Stream := ⟨append⟩

def concat (streams : List Stream) : Stream := streams.foldr append empty

def flatMap (f : UInt8 → Bytes) (s : Stream) : Stream := ⟨s.once.flatMap f, s.cycle.flatMap f⟩

/-- How much of an endless stream is read without a bound. -/
def horizon : Nat := 65536

def known (s : Stream) : Bytes := s.take (s.once.length + horizon)

end Stream

end LuaAsset
