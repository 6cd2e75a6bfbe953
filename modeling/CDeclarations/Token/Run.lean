import CDeclarations.Token.Reading
import CDeclarations.Text.Bytes

namespace CDeclarations

/-- A name or a number has at most this many bytes. -/
def maxTokenLength : Nat := 79

/-- Takes bytes as long as they go on with the text read so far. The byte that would make the
text too long is left to what follows, as is the first one that does not belong to it. -/
def textScanner (goesOn : List UInt8 → UInt8 → Bool) :
    Scanner (List UInt8) (Except TokenError (List UInt8)) where
  step text b :=
    if goesOn text b then
      if text.length < maxTokenLength then .goOn (text ++ [b]) else .giveBack (.error .tooLong)
    else .giveBack (.ok text)
  resume _ := none
  finish := .ok

/-- A word goes on with letters, digits and underscores. -/
def wordGoesOn (_ : List UInt8) (b : UInt8) : Bool := Text.isWordChar (Char.ofUInt8 b)

/-- A number goes on with digits, with hexadecimal ones behind `0x`, and the `x` itself can
only follow a first `0`. -/
def numberGoesOn (text : List UInt8) (b : UInt8) : Bool :=
  let c := Char.ofUInt8 b
  match text.map Char.ofUInt8 with
  | ['0'] => c.isDigit || c = 'x' || c = 'X'
  | '0' :: 'x' :: _ | '0' :: 'X' :: _ => Text.isHexDigit c
  | _ => c.isDigit

/-- The rest of a text behind its first byte. -/
def readText (goesOn : List UInt8 → UInt8 → Bool) (first : UInt8) (s : ByteStream) :
    Reading String :=
  ((textScanner goesOn).read [first] s).andThen fun text rest => (.ok (Text.ofBytes text), rest)

theorem readText_rest (goesOn : List UInt8 → UInt8 → Bool) (first : UInt8) (s : ByteStream) :
    (readText goesOn first s).2 = ((textScanner goesOn).read [first] s).2 := by
  unfold readText
  generalize (textScanner goesOn).read [first] s = answer
  obtain ⟨_ | _, rest⟩ := answer <;> rfl

theorem readText_events_suffix (goesOn : List UInt8 → UInt8 → Bool) (first : UInt8)
    (s : ByteStream) : (readText goesOn first s).2.events <:+ s.events := by
  rw [readText_rest]
  exact (textScanner goesOn).read_events_suffix [first] s

end CDeclarations
