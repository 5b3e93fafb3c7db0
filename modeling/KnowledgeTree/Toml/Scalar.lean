import KnowledgeTree.Calendar
import KnowledgeTree.Text.Numeral
import KnowledgeTree.Toml.Basic

/-!
Strings, numbers and dates of TOML.
-/

namespace KnowledgeTree.Toml

def isPlain (c : Char) : Bool := (' ' ≤ c || c == '\t') && c != '\x7f'

def isBlank (c : Char) : Bool := c == ' ' || c == '\t'

def newline? : List Char → Option (List Char)
  | '\n' :: cs => some cs
  | '\r' :: '\n' :: cs => some cs
  | _ => none

def simpleEscape? : Char → Option Char
  | 'b' => some '\x08'
  | 't' => some '\t'
  | 'n' => some '\n'
  | 'f' => some '\x0c'
  | 'r' => some '\r'
  | 'e' => some '\x1b'
  | '"' => some '"'
  | '\\' => some '\\'
  | _ => none

def codePoint? (width : Nat) (cs : List Char) : Option (Char × List Char) := do
  guard (width ≤ cs.length)
  let n ← Text.hexadecimal? (cs.take width)
  guard (Nat.isValidChar n)
  return (Char.ofNat n, cs.drop width)

def escape? : List Char → Option (Char × List Char)
  | 'x' :: cs => codePoint? 2 cs
  | 'u' :: cs => codePoint? 4 cs
  | 'U' :: cs => codePoint? 8 cs
  | c :: cs => (simpleEscape? c).map (·, cs)
  | [] => none

def skipBreaks : (bound : Nat) → List Char → List Char
  | 0, cs => cs
  | bound + 1, cs =>
    let cs := cs.dropWhile isBlank
    match newline? cs with
    | some rest => skipBreaks bound rest
    | none => cs

def continued? (cs : List Char) : Option (List Char) := do
  let rest ← newline? (cs.dropWhile isBlank)
  return skipBreaks (rest.length + 1) rest

def line? (quote : Char) (escapes : Bool) :
    (bound : Nat) → (acc : List Char) → List Char → Option (String × List Char)
  | 0, _, _ | _, _, [] => none
  | bound + 1, acc, c :: cs =>
    if c == quote then some (String.ofList acc.reverse, cs)
    else if escapes && c == '\\' then do
      let (e, rest) ← escape? cs
      line? quote escapes bound (e :: acc) rest
    else if isPlain c then line? quote escapes bound (c :: acc) cs
    else none

/-- Characters, line breaks included as they are written, up to three quotes. One or two more quotes
before these belong to the string. -/
def lines? (quote : Char) (escapes : Bool) :
    (bound : Nat) → (acc : List Char) → List Char → Option (String × List Char)
  | 0, _, _ | _, _, [] => none
  | bound + 1, acc, c :: cs =>
    let quotes := (c :: cs).takeWhile (· == quote)
    if quotes.length ≥ 3 then
      let inside := min (quotes.length - 3) 2
      some (String.ofList (List.replicate inside quote ++ acc).reverse, (c :: cs).drop (inside + 3))
    else if escapes && c == '\\' then
      match continued? cs with
      | some rest => lines? quote escapes bound acc rest
      | none => do
        let (e, rest) ← escape? cs
        lines? quote escapes bound (e :: acc) rest
    else
      if isPlain c || (newline? (c :: cs)).isSome then lines? quote escapes bound (c :: acc) cs else none

def lineString? : List Char → Option (String × List Char)
  | '"' :: cs => line? '"' true (cs.length + 1) [] cs
  | '\'' :: cs => line? '\'' false (cs.length + 1) [] cs
  | _ => none

def linesString? (quote : Char) (escapes : Bool) (cs : List Char) : Option (String × List Char) :=
  let body := (newline? cs).getD cs
  lines? quote escapes (body.length + 1) [] body

def string? : List Char → Option (String × List Char)
  | '"' :: '"' :: '"' :: cs => linesString? '"' true cs
  | '\'' :: '\'' :: '\'' :: cs => linesString? '\'' false cs
  | cs => lineString? cs

def isSpaced (isDigit : Char → Bool) : List Char → Bool
  | [] => true
  | '_' :: _ => false
  | c :: '_' :: cs => isDigit c && cs.head?.any isDigit && isSpaced isDigit cs
  | _ :: cs => isSpaced isDigit cs

/-- Hexadecimal digits may stand beside underscores in all integers. -/
def isIntegerSpaced (cs : List Char) : Bool := isSpaced (fun c => (Text.hexDigit? c).isSome) cs

/-- The integer that digits stand for, underscores apart. There may be none, which only matters where
a setting is read from the value. -/
def integer (base : Nat) (cs : List Char) : Toml :=
  match (cs.filter (· != '_')).mapM fun c => (Text.hexDigit? c).filter (· < base) with
  | some (d :: ds) => .int (Text.ofDigits base (d :: ds))
  | _ => .other

def based? (base : Nat) (cs : List Char) : Option Toml := do
  guard (cs.all fun c => c == '_' || (Text.hexDigit? c).any (· < base))
  guard (isIntegerSpaced cs)
  return integer base cs

/-- A decimal integer has no leading zero. After its first underscore any characters may follow that
leave the underscores between digits. -/
def decimal? (negative : Bool) (cs : List Char) : Option Toml := do
  guard (cs.head? ≠ some '0' ∨ cs = ['0'])
  match integer 10 cs with
  | .int n => return .int (if negative then -n else n)
  | value => return value

def dropSign : List Char → List Char
  | '+' :: cs => cs
  | '-' :: cs => cs
  | cs => cs

def dropDigits? (leadingZero : Bool) (cs : List Char) : Option (List Char) := do
  let run := cs.takeWhile fun c => c.isDigit || c == '_'
  let count := run.countP Char.isDigit
  guard (count = 1 ∨ 1 < count ∧ (leadingZero ∨ run.head? ≠ some '0'))
  return cs.drop run.length

def isFloat (cs : List Char) : Bool :=
  let rest? := do
    match ← dropDigits? false cs with
    | '.' :: rest => dropDigits? true rest
    | rest => some rest
  match rest? with
  | some (mark :: rest) =>
    (mark == 'e' || mark == 'E') && dropDigits? true (dropSign rest) == some []
  | some [] => true
  | none => false

def isClock (cs : List Char) : Bool :=
  match cs with
  | h₁ :: h₂ :: ':' :: m₁ :: m₂ :: rest =>
    let isBelow (bound : Nat) (cs : List Char) := (Text.natural? cs).any (· < bound)
    isBelow 24 [h₁, h₂] && isBelow 60 [m₁, m₂] &&
      match rest with
      | [] => true
      | ':' :: s₁ :: s₂ :: rest =>
        isBelow 61 [s₁, s₂] &&
          match rest with
          | [] => true
          | '.' :: ds => (Text.natural? ds).isSome
          | _ => false
      | _ => false
  | _ => false

def isOffset (cs : List Char) : Bool :=
  match cs with
  | ['Z'] | ['z'] => true
  | s :: h₁ :: h₂ :: ':' :: rest =>
    (s == '+' || s == '-') && rest.length = 2 && isClock (h₁ :: h₂ :: ':' :: rest)
  | _ => false

def isDay (cs : List Char) : Bool :=
  match cs with
  | [y₁, y₂, y₃, y₄, '-', m₁, m₂, '-', d₁, d₂] =>
    match Text.natural? [y₁, y₂, y₃, y₄], Text.natural? [m₁, m₂], Text.natural? [d₁, d₂] with
    | some y, some m, some d => Date.isValid ⟨y, m, d⟩
    | _, _, _ => false
  | _ => false

def isDate (cs : List Char) : Bool :=
  if isClock cs || isDay cs then true
  else
    let rest := cs.drop 10
    let time := (rest.drop 1).takeWhile fun c => c.isDigit || c == ':' || c == '.'
    let offset := (rest.drop 1).drop time.length
    isDay (cs.take 10) && ["T", "t", " "].contains (String.ofList (rest.take 1)) && isClock time &&
      (offset.isEmpty || isOffset offset)

def number? (sign : Option Char) (cs : List Char) : Option Toml :=
  let spaced := if sign.isSome then '0' :: cs else cs
  let rest := cs.dropWhile Char.isDigit
  match sign, cs with
  | none, '0' :: 'x' :: ds => based? 16 ds
  | none, '0' :: 'o' :: ds => based? 8 ds
  | none, '0' :: 'b' :: ds => based? 2 ds
  | _, [] => none
  | _, _ =>
    if rest.head? = some '-' ∨ rest.head? = some ':' then
      if sign.isNone && isDate cs then some .other else none
    else if rest.any ".eE".toList.contains then
      if isFloat cs && isSpaced Char.isDigit spaced then some .other else none
    else if rest.head?.all (· == '_') && isIntegerSpaced spaced then decimal? (sign == some '-') cs
    else none

def word? (cs : List Char) : Option Toml :=
  let body := dropSign cs
  if cs == "true".toList then some (.bool true)
  else if cs == "false".toList then some (.bool false)
  else if body == "inf".toList || body == "nan".toList then some .other
  else number? (if body.length < cs.length then cs.head? else none) body

end KnowledgeTree.Toml
