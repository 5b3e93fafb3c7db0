import KnowledgeTree.Limits

/-!
Checks on single values: names, words of a vocabulary, identifiers, version numbers.
-/

namespace KnowledgeTree

structure NameRule where
  maxLength : Nat
deriving DecidableEq, Repr

namespace NameRule

def new (maxLength : Nat) : Except Error NameRule :=
  if maxLength = 0 then .error (.config "max_name_length must be positive") else .ok ⟨maxLength⟩

def normalize (s : String) : String := Text.trim s

def validate (rule : NameRule) (name : String) : Except Error Unit :=
  if name.isEmpty then .error (.validationFailed "name" .required)
  else if rule.maxLength < name.length then .error (.validationFailed "name" (.tooLong rule.maxLength))
  else .ok ()

def clean (rule : NameRule) (s : String) : Except Error String :=
  (rule.validate (normalize s)).map fun _ => normalize s

end NameRule

def Limits.nameRule (l : Limits) : NameRule := ⟨l.maxNameLength⟩

def EntityType.parse (s : String) : Except Error EntityType :=
  let word := Text.fold s
  match EntityType.ofText? word with
  | some t => .ok t
  | none =>
    .error (.validationFailed "entity_type" (if word.isEmpty then .required else .unknownValue word))

def Capability.parse (s : String) : Except Error Capability :=
  let word := Text.fold s
  match Capability.ofText? word with
  | some c => .ok c
  | none => .error (.validationFailed "capability" (.unknownValue word))

def EntityId.require (field : String) (id : EntityId) : Except Error Unit :=
  if id.isNil then .error (.validationFailed field .nilIdentifier) else .ok ()

def UserId.require (id : UserId) : Except Error Unit :=
  if id.isNil then .error (.validationFailed "user_id" .nilIdentifier) else .ok ()

def VersionNumber.require (n : Int) : Except Error VersionNumber :=
  match VersionNumber.ofInt? n with
  | some v => .ok v
  | none => .error (.validationFailed "version" (.invalidVersion n))

end KnowledgeTree
