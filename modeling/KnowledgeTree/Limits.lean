import KnowledgeTree.Error

/-!
The limits of a tree: how deep it may grow and how long a name may be.
-/

namespace KnowledgeTree

structure Limits where
  maxDepth : Nat := 10
  maxNameLength : Nat := 255
deriving DecidableEq, Repr, Inhabited

namespace Limits

def maxDepthCeiling : Nat := 64

def maxNameLengthCeiling : Nat := 4096

def validate (l : Limits) : Except Error Unit :=
  if l.maxDepth = 0 ∨ maxDepthCeiling < l.maxDepth then
    .error (.config s!"max_depth must be between 1 and {maxDepthCeiling}, got {l.maxDepth}")
  else if l.maxNameLength = 0 ∨ maxNameLengthCeiling < l.maxNameLength then
    .error (.config
      s!"max_name_length must be between 1 and {maxNameLengthCeiling}, got {l.maxNameLength}")
  else .ok ()

def levels (l : Limits) : Nat := l.maxDepth + 1

/-- One level more than a tree may have, so that what is too deep shows up instead of being cut
off. -/
def probeDepth (l : Limits) : Nat := l.levels + 1

end Limits

end KnowledgeTree
