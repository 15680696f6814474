/-!
# Streams

What a program reads from and writes to: bytes that are still to be read, and bytes that have been written. An output may
take only so many bytes in all, and may refuse to be flushed.
-/

namespace NodeScript

/-- The bytes of an input that are still to be read. -/
structure Source where
  rest : List UInt8

namespace Source

/-- The bytes up to and including the next line feed, or all if there is none. -/
def chunk (s : Source) : List UInt8 :=
  s.rest.takeWhile (· ≠ 10) ++ (s.rest.dropWhile (· ≠ 10)).take 1

/-- The input after the next line. -/
def advance (s : Source) : Source :=
  ⟨(s.rest.dropWhile (· ≠ 10)).drop 1⟩

/-- A line without its end: without the line feed, and then without a carriage return before it. -/
def dropLineEnd (cs : List Char) : List Char :=
  if cs.getLast? = some '\n' then
    let body := cs.dropLast
    if body.getLast? = some '\r' then body.dropLast else body
  else cs

/-- The text of the next line, if its bytes are UTF-8. After the end of the input it is empty. -/
def line? (s : Source) : Option String :=
  (String.fromUTF8? ⟨s.chunk.toArray⟩).map fun text => String.ofList (dropLineEnd text.toList)

/-- The fault of a line that is not UTF-8. -/
def notText : String := "stream did not contain valid UTF-8"

end Source

/-- What has been written, and what an output does with more. -/
structure Sink where
  written : ByteArray
  /-- How many more bytes it takes; any number if there is no limit. -/
  room : Option Nat
  /-- What a write says that does not fit. -/
  refusal : String
  /-- What a flush says, if it fails. -/
  flushFault : Option String

namespace Sink

/-- An output that takes all. -/
def unlimited : Sink := ⟨ByteArray.empty, none, "", none⟩

/-- Writes a text. The bytes that fit are written even when not all do; the answer is what went wrong. -/
def write : Sink → String → Option String × Sink
  | ⟨written, room, refusal, flushFault⟩, text =>
    let bytes := text.toUTF8
    match room with
    | none => (none, ⟨written ++ bytes, none, refusal, flushFault⟩)
    | some n =>
      if bytes.size ≤ n then (none, ⟨written ++ bytes, some (n - bytes.size), refusal, flushFault⟩)
      else (some refusal, ⟨written ++ bytes.extract 0 n, some 0, refusal, flushFault⟩)

end Sink

end NodeScript
