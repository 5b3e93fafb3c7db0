import KnowledgeTree.Json.Basic
import KnowledgeTree.Text.Numeral

/-!
The words of JSON texts.
-/

namespace KnowledgeTree.Json

inductive Token
  | openArray
  | closeArray
  | openObject
  | closeObject
  | comma
  | colon
  /-- A string; `none` if it holds half a surrogate pair. -/
  | text (s : Option String)
  | scalar (value : Json)
  | bad
deriving Repr, Inhabited

def isSpace (c : Char) : Bool := c == ' ' || c == '\n' || c == '\t' || c == '\r'

def escaped? : Char → Option Char
  | '"' => some '"'
  | '\\' => some '\\'
  | '/' => some '/'
  | 'b' => some '\x08'
  | 'f' => some '\x0c'
  | 'n' => some '\n'
  | 'r' => some '\r'
  | 't' => some '\t'
  | _ => none

def isHighSurrogate (unit : Nat) : Bool := 0xD800 ≤ unit && unit < 0xDC00

def isLowSurrogate (unit : Nat) : Bool := 0xDC00 ≤ unit && unit < 0xE000

/-- What has been read of a string: its characters, last first, the first half of a surrogate pair
if it was just read, and whether a half has gone without its other one. -/
structure Reading where
  chars : List Char := []
  high : Option Nat := none
  broken : Bool := false

namespace Reading

def push (r : Reading) (c : Char) : Reading := ⟨c :: r.chars, none, r.broken || r.high.isSome⟩

def pushUnit (r : Reading) (unit : Nat) : Reading :=
  match r.high with
  | some high =>
    if isLowSurrogate unit then
      ⟨Char.ofNat (0x10000 + (high - 0xD800) * 0x400 + (unit - 0xDC00)) :: r.chars, none, r.broken⟩
    else ⟨r.chars, none, true⟩
  | none =>
    if isHighSurrogate unit then { r with high := some unit }
    else if isLowSurrogate unit then { r with broken := true }
    else r.push (Char.ofNat unit)

def result (r : Reading) : Option String :=
  if r.broken || r.high.isSome then none else some (String.ofList r.chars.reverse)

end Reading

def readString (r : Reading) : List Char → Token × List Char
  | '"' :: cs => (.text r.result, cs)
  | '\\' :: 'u' :: a :: b :: c :: d :: cs =>
    match Text.hexadecimal? [a, b, c, d] with
    | some unit => readString (r.pushUnit unit) cs
    | none => (.bad, [])
  | '\\' :: c :: cs =>
    match escaped? c with
    | some e => readString (r.push e) cs
    | none => (.bad, [])
  | c :: cs => if c < ' ' || c == '\\' then (.bad, []) else readString (r.push c) cs
  | [] => (.bad, [])

def appendDigits (n : Nat) : List Char → Nat × List Char
  | [] => (n, [])
  | c :: cs =>
    let next := 10 * n + (Text.digit? c).getD 0
    if next < 18446744073709551616 then appendDigits next cs else (n, c :: cs)

/-- The nearest number with 53 binary digits and zeros after them. Of two, it is the one with the
even last digit. -/
def nearestDouble (n : Nat) : Nat :=
  let unit := Nat.pow 2 (n.log2 - 52)
  let digits := n / unit
  let rest := n % unit
  let up := unit < 2 * rest || (unit == 2 * rest && digits % 2 == 1)
  (if up then digits + 1 else digits) * unit

/-- From here on a number rounds to no finite double: halfway between the greatest and 2^1024. -/
def doubleBound : Nat := Nat.pow 2 1024 - Nat.pow 2 970

/-- A number counts as the product of two doubles: the one nearest to the digits that fit in 64 bits,
and the one nearest to a power of ten. No such power is beyond 10^308. -/
def exceedsDoubles (whole fraction : List Char) (scale : Int) : Bool :=
  let (n, left) := appendDigits 0 whole
  let (n, unread) := appendDigits n fraction
  let exponent := scale + left.length + unread.length - fraction.length
  n != 0 && 0 ≤ exponent &&
    (308 < exponent || doubleBound ≤ nearestDouble n * nearestDouble (Nat.pow 10 exponent.toNat))

def number (negative : Bool) (whole fraction : List Char) (exponent : Option (Bool × List Char)) :
    Json :=
  let scale : Int :=
    match exponent with
    | none => 0
    | some (down, ds) =>
      let ds := ds.dropWhile (· == '0')
      let n : Nat := if 10 < ds.length then 10000000000 else (Text.natural? ds).getD 0
      if down then -n else n
  if exceedsDoubles whole fraction scale then .unreadable
  else if fraction.isEmpty && exponent.isNone && !(negative && whole == ['0']) then
    let n : Nat := (Text.natural? whole).getD 0
    .int (if negative then -n else n)
  else
    let sign := if negative then ['-'] else []
    let point := if fraction.isEmpty then [] else '.' :: fraction
    let power := match exponent with
      | none => []
      | some (down, ds) => 'e' :: (if down then '-' :: ds else ds)
    .decimal (String.ofList (sign ++ whole ++ point ++ power))

def readFraction? : List Char → Option (List Char × List Char)
  | '.' :: cs =>
    let ds := cs.takeWhile Char.isDigit
    if ds.isEmpty then none else some (ds, cs.dropWhile Char.isDigit)
  | cs => some ([], cs)

def readPower? (down : Bool) (cs : List Char) : Option (Option (Bool × List Char) × List Char) :=
  let ds := cs.takeWhile Char.isDigit
  if ds.isEmpty then none else some (some (down, ds), cs.dropWhile Char.isDigit)

def readExponent? : List Char → Option (Option (Bool × List Char) × List Char)
  | c :: cs =>
    if c == 'e' || c == 'E' then
      match cs with
      | '-' :: cs => readPower? true cs
      | '+' :: cs => readPower? false cs
      | cs => readPower? false cs
    else some (none, c :: cs)
  | [] => some (none, [])

def readNumber (negative : Bool) (cs : List Char) : Token × List Char :=
  let whole := cs.takeWhile Char.isDigit
  if whole.isEmpty || (whole.head? == some '0' && 1 < whole.length) then (.bad, [])
  else
    match readFraction? (cs.dropWhile Char.isDigit) with
    | none => (.bad, [])
    | some (fraction, cs) =>
      match readExponent? cs with
      | none => (.bad, [])
      | some (exponent, cs) => (.scalar (number negative whole fraction exponent), cs)

def readWord (word : String) (value : Json) (cs : List Char) : Token × List Char :=
  match word.toList.isPrefixOf cs with
  | true => (.scalar value, cs.drop word.length)
  | false => (.bad, [])

def nextToken (c : Char) (cs : List Char) : Token × List Char :=
  match c with
  | '[' => (.openArray, cs)
  | ']' => (.closeArray, cs)
  | '{' => (.openObject, cs)
  | '}' => (.closeObject, cs)
  | ',' => (.comma, cs)
  | ':' => (.colon, cs)
  | '"' => readString {} cs
  | '-' => readNumber true cs
  | 'n' => readWord "ull" .null cs
  | 't' => readWord "rue" (.bool true) cs
  | 'f' => readWord "alse" (.bool false) cs
  | c => if c.isDigit then readNumber false (c :: cs) else (.bad, [])

end KnowledgeTree.Json
