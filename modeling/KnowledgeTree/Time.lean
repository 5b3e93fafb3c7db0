import KnowledgeTree.Calendar
import KnowledgeTree.Text.Blank
import KnowledgeTree.Text.Numeral

/-!
Instants in UTC with nanoseconds, their RFC 3339 text, and a lenient reader of such texts.
-/

namespace KnowledgeTree

/-- Seconds since 1970-01-01T00:00:00Z and nanoseconds after them. Within a leap second `nanos` is
10^9 or more, and `seconds` that of the second before it. -/
structure Time where
  seconds : Int
  nanos : Nat
deriving DecidableEq, Repr, Inhabited

namespace Time

def ofNanos (n : Int) : Time := ⟨n / 1000000000, (n % 1000000000).toNat⟩

def ofMillis (n : Int) : Time := ofNanos (n * 1000000)

def toNanos (t : Time) : Int := t.seconds * 1000000000 + t.nanos

def after (t : Time) (nanos : Int) : Time := ofNanos (t.toNanos + nanos)

def date (t : Time) : Date := Date.ofDays (t.seconds / 86400)

def yearText (year : Int) : String :=
  if 0 ≤ year ∧ year ≤ 9999 then Text.decimal 4 year.toNat
  else
    let digits := toString year.natAbs
    (if year < 0 then "-" else "+") ++ String.ofList (List.replicate (4 - digits.length) '0') ++ digits

def dateText (t : Time) : String :=
  let d := t.date
  yearText d.year ++ "-" ++ Text.decimal 2 d.month ++ "-" ++ Text.decimal 2 d.day

def clockText (t : Time) : String :=
  let s := (t.seconds % 86400).toNat
  Text.decimal 2 (s / 3600) ++ ":" ++ Text.decimal 2 (s / 60 % 60) ++ ":" ++
    Text.decimal 2 (s % 60 + t.nanos / 1000000000)

/-- No digits, or three, six or nine of them: the fewest that are exact. -/
def fractionText (nanos : Nat) : String :=
  if nanos = 0 then ""
  else if nanos % 1000000 = 0 then "." ++ Text.decimal 3 (nanos / 1000000)
  else if nanos % 1000 = 0 then "." ++ Text.decimal 6 (nanos / 1000)
  else "." ++ Text.decimal 9 nanos

def text (t : Time) : String :=
  t.dateText ++ "T" ++ t.clockText ++ fractionText (t.nanos % 1000000000) ++ "Z"

def plainText (t : Time) : String := t.dateText ++ " " ++ t.clockText

def takeDigits? (width : Nat) (cs : List Char) : Option (List Char × List Char) :=
  let ds := (cs.take width).takeWhile Char.isDigit
  if ds.isEmpty then none else some (ds, cs.drop ds.length)

def readField? (cs : List Char) : Option (Nat × List Char) := do
  let (ds, rest) ← takeDigits? 2 (Text.trimStart cs)
  return (← Text.natural? ds, rest)

def readYear? (cs : List Char) : Option (Int × List Char) := do
  match Text.trimStart cs with
  | '-' :: rest => do
    let (ds, rest) ← takeDigits? rest.length rest
    return (-(← Text.natural? ds), rest)
  | '+' :: rest => do
    let (ds, rest) ← takeDigits? rest.length rest
    return (← Text.natural? ds, rest)
  | cs => do
    let (ds, rest) ← takeDigits? 4 cs
    return (← Text.natural? ds, rest)

def skip? (c : Char) (cs : List Char) : Option (List Char) :=
  match Text.trimStart cs with
  | d :: rest => if c = d then some rest else none
  | [] => none

def readFraction? : List Char → Option (Nat × List Char)
  | '.' :: cs => do
    let (ds, rest) ← takeDigits? 9 cs
    return (← Text.natural? (ds ++ List.replicate (9 - ds.length) '0'), rest.dropWhile Char.isDigit)
  | cs => some (0, cs)

def isOffsetSeparator (c : Char) : Bool := c == ':' || Text.isBlank c

def readHoursMinutes? : List Char → Option (Nat × List Char)
  | h₁ :: h₂ :: cs => do
    let hours ← Text.natural? [h₁, h₂]
    match cs.dropWhile isOffsetSeparator with
    | m₁ :: m₂ :: rest => do
      let minutes ← Text.natural? [m₁, m₂]
      if minutes < 60 then some (hours * 3600 + minutes * 60, rest) else none
    | _ => none
  | _ => none

def readOffset? (cs : List Char) : Option (Int × List Char) :=
  if (cs.take 3).map Char.toLower = ['u', 't', 'c'] then some (0, cs.drop 3)
  else match cs with
    | 'z' :: rest => some (0, rest)
    | 'Z' :: rest => some (0, rest)
    | '+' :: rest => (readHoursMinutes? rest).map fun (s, rest) => (s, rest)
    | '-' :: rest => (readHoursMinutes? rest).map fun (s, rest) => (-s, rest)
    | '−' :: rest => (readHoursMinutes? rest).map fun (s, rest) => (-s, rest)
    | _ => none

def inRange (d : Date) : Bool := -262143 ≤ d.year && d.year ≤ 262142

def ofChars? (cs : List Char) : Option Time := do
  let (year, cs) ← readYear? cs
  let cs ← skip? '-' cs
  let (month, cs) ← readField? cs
  let cs ← skip? '-' cs
  let (day, cs) ← readField? cs
  let cs ← match cs with
    | c :: rest => if c = 't' ∨ c = 'T' ∨ c = ' ' then some rest else none
    | [] => none
  let (hour, cs) ← readField? cs
  let cs ← skip? ':' cs
  let (minute, cs) ← readField? cs
  let cs ← skip? ':' cs
  let (second, cs) ← readField? cs
  let (nanos, cs) ← readFraction? cs
  let (offset, cs) ← readOffset? (Text.trimStart cs)
  let date : Date := ⟨year, month, day⟩
  let seconds := date.toDays * 86400 + hour * 3600 + minute * 60 + min second 59 - offset
  let time : Time := ⟨seconds, if second = 60 then nanos + 1000000000 else nanos⟩
  if date.isValid ∧ inRange date ∧ hour < 24 ∧ minute < 60 ∧ second ≤ 60 ∧
      offset.natAbs < 86400 ∧ inRange time.date ∧ (Text.trimStart cs).isEmpty then
    some time
  else none

def ofText? (s : String) : Option Time := ofChars? s.toList

end Time

end KnowledgeTree
