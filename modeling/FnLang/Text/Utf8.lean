/- # FnLang.Text.Utf8 — decoding bytes, with the place of the first fault.

A source file is UTF-8.  The decoder reads byte by byte; the first byte that no character can start
with, the first byte that cannot continue the character begun before it, or an end of the bytes
inside a character stops it.  The fault names the bytes of the character that could not be read: the
start byte alone, the bytes before the one that does not continue, or all bytes up to the end.
-/
import FnLang.Text.Hex
import FnLang.Text.Numeral

namespace FnLang.Text.Utf8

/-- What is wrong with the bytes. -/
inductive Reason where
  | invalidStart
  | invalidContinuation
  | unexpectedEnd
  deriving DecidableEq, Repr

/-- A reason and the bytes it concerns: `first` is the byte at position `start`, and `stop` is the
position after the last of them. -/
structure Fault where
  reason : Reason
  first : Nat
  start : Nat
  stop : Nat
  deriving DecidableEq, Repr

/-- A character begun and not finished: the position and value of its first byte, the bits read so
far, how many bytes are owed and the range of the next one. -/
structure Begun where
  start : Nat
  first : Nat
  bits : Nat
  owed : Nat
  low : Nat := 0x80
  high : Nat := 0xBF

/-- What a byte above ASCII begins.  The second byte is restricted where the encoding would be
longer than needed, denote a surrogate or pass the last code point. -/
def begin? (start b : Nat) : Option Begun :=
  if b < 0xC2 then none
  else if b < 0xE0 then some { start, first := b, bits := b - 0xC0, owed := 1 }
  else if b = 0xE0 then some { start, first := b, bits := 0, owed := 2, low := 0xA0 }
  else if b = 0xED then some { start, first := b, bits := 0xD, owed := 2, high := 0x9F }
  else if b < 0xF0 then some { start, first := b, bits := b - 0xE0, owed := 2 }
  else if b = 0xF0 then some { start, first := b, bits := 0, owed := 3, low := 0x90 }
  else if b = 0xF4 then some { start, first := b, bits := 4, owed := 3, high := 0x8F }
  else if b < 0xF4 then some { start, first := b, bits := b - 0xF0, owed := 3 }
  else none

/-- Decodes from position `pos` on; `done` holds the characters read, the last one first. -/
def decodeFrom (pos : Nat) (done : List Char) :
    Option Begun → List Nat → Except Fault (List Char)
  | none, [] => .ok done.reverse
  | some g, [] => .error ⟨.unexpectedEnd, g.first, g.start, pos⟩
  | none, b :: rest =>
      if b < 0x80 then decodeFrom (pos + 1) (Char.ofNat b :: done) none rest
      else match begin? pos b with
        | none => .error ⟨.invalidStart, b, pos, pos + 1⟩
        | some g => decodeFrom (pos + 1) done (some g) rest
  | some g, b :: rest =>
      if g.low ≤ b ∧ b ≤ g.high then
        let bits := g.bits * 64 + (b - 0x80)
        if g.owed ≤ 1 then decodeFrom (pos + 1) (Char.ofNat bits :: done) none rest
        else decodeFrom (pos + 1) done
          (some { g with bits, owed := g.owed - 1, low := 0x80, high := 0xBF }) rest
      else .error ⟨.invalidContinuation, g.first, g.start, pos⟩

/-- The text that bytes encode. -/
def decode (bytes : List Nat) : Except Fault (List Char) :=
  decodeFrom 0 [] none bytes

/-! ## Wording -/

def Reason.message : Reason → String
  | .invalidStart => "invalid start byte"
  | .invalidContinuation => "invalid continuation byte"
  | .unexpectedEnd => "unexpected end of data"

/-- A single byte is shown with its value, several bytes by their positions alone. -/
def Fault.message (f : Fault) : String :=
  let place :=
    if f.stop = f.start + 1 then
      "byte 0x" ++ String.ofList (hex 2 f.first) ++ " in position " ++ Numeral.write f.start
    else
      "bytes in position " ++ Numeral.write f.start ++ "-" ++ Numeral.write (f.stop - 1 : Nat)
  "\x27utf-8\x27 codec can\x27t decode " ++ place ++ ": " ++ f.reason.message

end FnLang.Text.Utf8
