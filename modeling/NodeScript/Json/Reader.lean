import NodeScript.Decimal.Reader
import NodeScript.Json.Written

/-!
# Reading JSON text

Text is cut into tokens, and the tokens drive a machine with a stack of open containers. The grammar is strict: no
comments, no comma before a closing bracket, nothing but blanks after the document.
-/

namespace NodeScript.Written

/-- The smallest parts of a text. -/
inductive Token where
  | openArray
  | closeArray
  | openObject
  | closeObject
  | comma
  | colon
  | text (s : Option String)
  | scalar (w : Written)

/-! ## Tokens -/

/-- The value of a hexadecimal digit. -/
def hexDigit? (c : Char) : Option Nat :=
  if '0' ≤ c ∧ c ≤ '9' then some (c.toNat - '0'.toNat)
  else if 'a' ≤ c ∧ c ≤ 'f' then some (c.toNat - 'a'.toNat + 10)
  else if 'A' ≤ c ∧ c ≤ 'F' then some (c.toNat - 'A'.toNat + 10)
  else none

/-- The value of four hexadecimal digits, and what follows them. -/
def hexUnit? : List Char → Option (Nat × List Char)
  | a :: b :: c :: d :: rest => do
    let a ← hexDigit? a
    let b ← hexDigit? b
    let c ← hexDigit? c
    let d ← hexDigit? d
    return (((a * 16 + b) * 16 + c) * 16 + d, rest)
  | _ => none

/-- What a part of a string stands for: a character, or half of a character outside the basic plane. -/
inductive Unit16 where
  | char (c : Char)
  | half (code : Nat)

/-- The part of a string that an escape after its backslash stands for. -/
def escape? : List Char → Option (Unit16 × List Char)
  | '"' :: rest => some (.char '"', rest)
  | '\\' :: rest => some (.char '\\', rest)
  | '/' :: rest => some (.char '/', rest)
  | 'b' :: rest => some (.char '\x08', rest)
  | 'f' :: rest => some (.char '\x0c', rest)
  | 'n' :: rest => some (.char '\n', rest)
  | 'r' :: rest => some (.char '\r', rest)
  | 't' :: rest => some (.char '\t', rest)
  | 'u' :: rest => do
    let (code, rest) ← hexUnit? rest
    return (if 0xD800 ≤ code ∧ code ≤ 0xDFFF then .half code else .char (Char.ofNat code), rest)
  | _ => none

/-- The parts of a string up to its closing quote, and what follows it; `fuel` bounds the number of parts. -/
def stringParts? : Nat → List Unit16 → List Char → Option (List Unit16 × List Char)
  | 0, _, _ => none
  | _, _, [] => none
  | fuel + 1, parts, c :: rest =>
    if c = '"' then some (parts.reverse, rest)
    else if c = '\\' then do
      let (part, rest) ← escape? rest
      stringParts? fuel (part :: parts) rest
    else if c.toNat < 0x20 then none
    else stringParts? fuel (.char c :: parts) rest

/-- The characters of some parts. A high half has to be followed by a low half. -/
def characters? : List Unit16 → Option (List Char)
  | [] => some []
  | .char c :: rest => (characters? rest).map (c :: ·)
  | .half high :: .half low :: rest =>
    if high < 0xDC00 ∧ 0xDC00 ≤ low then
      (characters? rest).map (Char.ofNat (0x10000 + (high - 0xD800) * 0x400 + (low - 0xDC00)) :: ·)
    else none
  | .half _ :: _ => none

/-- The digits of a fraction after its point, if there is one, and what follows them. -/
def fraction? : List Char → Option (Option (List Char) × List Char)
  | '.' :: rest =>
    if (rest.takeWhile Char.isDigit).isEmpty then none
    else some (some (rest.takeWhile Char.isDigit), rest.dropWhile Char.isDigit)
  | rest => some (none, rest)

/-- The power of ten after its letter, if there is one, and what follows it. -/
def exponent? : List Char → Option (Option Int × List Char)
  | [] => some (none, [])
  | c :: rest =>
    if c = 'e' ∨ c = 'E' then
      let (negative, rest) := Decimal.splitSign rest
      let digits := rest.takeWhile Char.isDigit
      let value : Int := Decimal.digitsValue digits
      if digits.isEmpty then none else some (some (if negative then -value else value), rest.dropWhile Char.isDigit)
    else some (none, c :: rest)

/-- A number at the start of the text, and what follows it. Only a single zero starts with a zero. -/
def number? (cs : List Char) : Option (WrittenNumber × List Char) := do
  let (negative, cs) := match cs with
    | '-' :: rest => (true, rest)
    | cs => (false, cs)
  let digits := cs.takeWhile Char.isDigit
  guard (digits = ['0'] ∨ (digits ≠ [] ∧ digits.head? ≠ some '0'))
  let (fraction, rest) ← fraction? (cs.dropWhile Char.isDigit)
  let (power, rest) ← exponent? rest
  return (⟨negative, digits, fraction, power⟩, rest)

/-- The token at the start of a text that starts with `c`, and what follows it. -/
def token? (c : Char) (rest : List Char) : Option (Token × List Char) :=
  match c, rest with
  | '[', rest => some (.openArray, rest)
  | ']', rest => some (.closeArray, rest)
  | '\x7b', rest => some (.openObject, rest)
  | '\x7d', rest => some (.closeObject, rest)
  | ',', rest => some (.comma, rest)
  | ':', rest => some (.colon, rest)
  | '"', rest => do
    let (parts, rest) ← stringParts? (rest.length + 1) [] rest
    return (.text ((characters? parts).map String.ofList), rest)
  | 'n', 'u' :: 'l' :: 'l' :: rest => some (.scalar .null, rest)
  | 't', 'r' :: 'u' :: 'e' :: rest => some (.scalar (.bool true), rest)
  | 'f', 'a' :: 'l' :: 's' :: 'e' :: rest => some (.scalar (.bool false), rest)
  | c, rest => do
    let (n, rest) ← number? (c :: rest)
    return (.scalar (.number n), rest)

/-- The tokens of a text, after those found before in reverse; `fuel` bounds the number of steps. -/
def tokens? : Nat → List Token → List Char → Option (List Token)
  | _, found, [] => some found.reverse
  | 0, _, _ => none
  | fuel + 1, found, c :: rest =>
    if c = ' ' ∨ c = '\n' ∨ c = '\t' ∨ c = '\r' then tokens? fuel found rest
    else do
      let (t, rest) ← token? c rest
      tokens? fuel (t :: found) rest

/-! ## Documents -/

/-- An open container with what it holds so far, the last first. -/
inductive Frame where
  | array (items : List Written)
  | object (members : List (Option String × Written)) (name : Option String)

/-- What may come next. -/
inductive Expect where
  | value
  | valueOrClose
  | name (members : List (Option String × Written))
  | nameOrClose
  | colon
  | more
  | done (w : Written)

/-- The open containers, the innermost first, and what may come next. -/
structure Reading where
  frames : List Frame
  expect : Expect

namespace Reading

/-- A value has been read in full. -/
def complete (frames : List Frame) (w : Written) : Reading :=
  match frames with
  | [] => ⟨[], .done w⟩
  | .array items :: outer => ⟨.array (w :: items) :: outer, .more⟩
  | .object members name :: outer => ⟨.object ((name, w) :: members) none :: outer, .more⟩

/-- The token starts a value. -/
def startValue (frames : List Frame) : Token → Option Reading
  | .scalar w => some (complete frames w)
  | .text s => some (complete frames (.string s))
  | .openArray => some ⟨.array [] :: frames, .valueOrClose⟩
  | .openObject => some ⟨frames, .nameOrClose⟩
  | _ => none

/-- One token further. -/
def step (r : Reading) (t : Token) : Option Reading :=
  match r.expect, r.frames, t with
  | .value, frames, t => startValue frames t
  | .valueOrClose, .array items :: outer, .closeArray => some (complete outer (.array items.reverse))
  | .valueOrClose, frames, t => startValue frames t
  | .nameOrClose, frames, .closeObject => some (complete frames (.object []))
  | .nameOrClose, frames, .text s => some ⟨.object [] s :: frames, .colon⟩
  | .name members, frames, .text s => some ⟨.object members s :: frames, .colon⟩
  | .colon, frames, .colon => some ⟨frames, .value⟩
  | .more, .array items :: outer, .comma => some ⟨.array items :: outer, .value⟩
  | .more, .array items :: outer, .closeArray => some (complete outer (.array items.reverse))
  | .more, .object members _ :: outer, .comma => some ⟨outer, .name members⟩
  | .more, .object members _ :: outer, .closeObject => some (complete outer (.object members.reverse))
  | _, _, _ => none

/-- The document, if it has been read in full. -/
def result? (r : Reading) : Option Written :=
  match r.expect with
  | .done w => some w
  | _ => none

end Reading

/-- The document that a text holds. -/
def read? (source : String) : Option Written := do
  let tokens ← tokens? source.length [] source.toList
  let reading ← tokens.foldlM Reading.step ⟨[], .value⟩
  reading.result?

end NodeScript.Written

namespace NodeScript.Json

/-- How many containers of a text may be open at once. -/
def nestingLimit : Nat := 127

/-- The document that a text holds, if it is JSON. -/
def parse? (source : String) : Option Json :=
  (Written.read? source).bind (Written.document? nestingLimit)

end NodeScript.Json
