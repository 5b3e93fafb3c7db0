import KnowledgeTree.Error

/-!
Cancellation. A call carries a context; contexts cloned from one another share a flag, and what
cancels one of them raises it for all.
-/

namespace KnowledgeTree

structure Context where
  isDone : Bool
deriving DecidableEq, Repr, Inhabited

namespace Context

def background : Context := ⟨false⟩

def cancelled : Context := ⟨true⟩

def check (c : Context) : Except Error Unit := if c.isDone then .error .cancelled else .ok ()

end Context

/-- A context as its holder has it: the flag that it shares with its clones, by number, and whether
its own deadline has passed. A clone takes both over. -/
structure ContextRef where
  flag : Nat
  isExpired : Bool
deriving DecidableEq, Repr, Inhabited

structure ContextPool where
  contexts : List ContextRef := []
  guards : List ContextRef := []
  flags : List Bool := []
deriving DecidableEq, Repr, Inhabited

namespace ContextPool

/-- A step in the life of a pool. Contexts and guards are named by their number, from 0; a step that
names one which does not exist has no effect. A timeout of zero has passed as soon as it is set, and
any other one is taken not to pass. -/
inductive Step
  | background
  | timeout (isZero : Bool)
  | clone (of : Nat)
  | cancel (of : Nat)
  | guard (of : Nat)
  | release (guard : Nat)
deriving DecidableEq, Repr

def add (p : ContextPool) (isExpired : Bool) : ContextPool :=
  { p with contexts := p.contexts ++ [⟨p.flags.length, isExpired⟩], flags := p.flags ++ [false] }

def finish (p : ContextPool) : Option ContextRef → ContextPool
  | some ref => { p with flags := p.flags.set ref.flag true }
  | none => p

def step (p : ContextPool) : Step → ContextPool
  | .background => p.add false
  | .timeout isZero => p.add isZero
  | .clone of =>
    match p.contexts[of]? with
    | some ref => { p with contexts := p.contexts ++ [ref] }
    | none => p
  | .cancel of => p.finish p.contexts[of]?
  | .guard of =>
    match p.contexts[of]? with
    | some ref => { p with guards := p.guards ++ [ref] }
    | none => p
  | .release guard => p.finish p.guards[guard]?

def look (p : ContextPool) (ref : ContextRef) : Context :=
  ⟨p.flags[ref.flag]?.getD false || ref.isExpired⟩

def view (p : ContextPool) : List Context := p.contexts.map p.look

end ContextPool

end KnowledgeTree
