import KnowledgeTree.Json.Token

/-!
Reading JSON texts. A text is read as far as it is JSON, with the open arrays and objects kept on a
stack, so that the depth of a text is bounded by its length alone.
-/

namespace KnowledgeTree.Json

/-- What a text holds: its value, whether only white space follows it, and whether every key and
every scalar can be read. -/
structure Document where
  root : Json
  ended : Bool
  readable : Bool

inductive Frame
  | array (items : List Json)
  | object (fields : List (Option String × Json)) (key : Option String)

inductive Expectation
  | value
  | valueOrClose
  | key
  | keyOrClose
  | colon
  | commaOrClose

structure Parsing where
  frames : List Frame := []
  expect : Expectation := .value
  readable : Bool := true

namespace Frame

def add (v : Json) : Frame → Frame
  | array items => array (v :: items)
  | object fields key => object ((key, v) :: fields) key

def close (closed : Bool) : Frame → Json
  | array items => arr items.reverse closed
  | object fields _ => obj fields.reverse closed

end Frame

namespace Parsing

/-- The value of a text that stops being JSON here, with `v` the innermost value. -/
def collapse (frames : List Frame) (v : Json) : Json :=
  frames.foldl (fun v frame => (frame.add v).close false) v

def tear (p : Parsing) : Json :=
  match p.expect, p.frames with
  | .value, frames | .valueOrClose, frames | .colon, frames => collapse frames torn
  | _, frame :: frames => collapse frames (frame.close false)
  | _, [] => torn

def complete (p : Parsing) (v : Json) (frames : List Frame) : Json ⊕ Parsing :=
  match frames with
  | [] => .inl v
  | frame :: frames => .inr { p with frames := frame.add v :: frames, expect := .commaOrClose }

def enter (p : Parsing) (frame : Frame) (expect : Expectation) : Parsing :=
  { p with frames := frame :: p.frames, expect }

def value (p : Parsing) : Token → Json ⊕ Parsing
  | .openArray => .inr (p.enter (.array []) .valueOrClose)
  | .openObject => .inr (p.enter (.object [] none) .keyOrClose)
  | .text (some s) => p.complete (.str s) p.frames
  | .text none => p.complete .unreadable p.frames
  | .scalar v => p.complete v p.frames
  | _ => .inl p.tear

def leave (p : Parsing) : Json ⊕ Parsing :=
  match p.frames with
  | frame :: frames => p.complete (frame.close true) frames
  | [] => .inl p.tear

def key (p : Parsing) (k : Option String) : Json ⊕ Parsing :=
  match p.frames with
  | .object fields _ :: frames => .inr { p with frames := .object fields k :: frames, expect := .colon }
  | _ => .inl p.tear

def separate (p : Parsing) : Json ⊕ Parsing :=
  match p.frames with
  | .array _ :: _ => .inr { p with expect := .value }
  | .object _ _ :: _ => .inr { p with expect := .key }
  | [] => .inl p.tear

def closes (p : Parsing) : Token → Bool
  | .closeArray => p.frames.head?.any fun | .array _ => true | .object _ _ => false
  | .closeObject => p.frames.head?.any fun | .array _ => false | .object _ _ => true
  | _ => false

def step (p : Parsing) (t : Token) : Json ⊕ Parsing :=
  let p := match t with
    | .text none | .scalar .unreadable => { p with readable := false }
    | _ => p
  match p.expect, t with
  | .value, t => p.value t
  | .valueOrClose, t => if p.closes t then p.leave else p.value t
  | .key, .text k => p.key k
  | .keyOrClose, .text k => p.key k
  | .keyOrClose, t => if p.closes t then p.leave else .inl p.tear
  | .colon, .colon => .inr { p with expect := .value }
  | .commaOrClose, .comma => p.separate
  | .commaOrClose, t => if p.closes t then p.leave else .inl p.tear
  | _, _ => .inl p.tear

/-- Reads token by token. Each takes a character, so as many steps as characters are enough. -/
def loop (p : Parsing) : (steps : Nat) → List Char → Document
  | 0, _ => ⟨p.tear, false, p.readable⟩
  | steps + 1, cs =>
    match cs.dropWhile isSpace with
    | [] => ⟨p.tear, false, p.readable⟩
    | c :: cs =>
      let (t, rest) := nextToken c cs
      match p.step t with
      | .inl v => ⟨v, (rest.dropWhile isSpace).isEmpty, p.readable⟩
      | .inr p => loop p steps rest

end Parsing

def Document.ofText (s : String) : Document :=
  let cs := s.toList
  Parsing.loop {} (cs.length + 1) cs

end KnowledgeTree.Json
