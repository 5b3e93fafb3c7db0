import KnowledgeTree.Error

/-!
Supplies of fresh identifiers and of instants.
-/

namespace KnowledgeTree

def blockSize : Nat := 18446744073709551616

structure IdSource where
  issued : UInt64 := 0
  block : UInt64 := 0
deriving DecidableEq, Repr, Inhabited

namespace IdSource

/-- The call after number 2^64 - 1 fails, and its count starts again from zero. -/
def take (s : IdSource) : Except Error EntityId × IdSource :=
  let number := s.issued.toNat + 1
  let after := { s with issued := s.issued + 1 }
  if number < blockSize then (.ok ⟨Uuid.ofNat (s.block.toNat * blockSize + number)⟩, after)
  else (.error (.idGeneration "sequential identifier space exhausted"), after)

end IdSource

structure Clock where
  now : Time := ⟨0, 0⟩
  step : Int := 0
deriving DecidableEq, Repr, Inhabited

namespace Clock

def read (c : Clock) : Time × Clock := (c.now, { c with now := c.now.after c.step })

end Clock

end KnowledgeTree
