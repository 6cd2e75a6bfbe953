import CDeclarations.Proofs.Reading.Errors
import CDeclarations.Proofs.Text.Printable

namespace CDeclarations

namespace Text

theorem utf8Size_of_isWordChar {c : Char} (h : isWordChar c) : c.utf8Size = 1 :=
  utf8Size_of_printable (printable_of_isWordChar h)

theorem width_of_forall {cs : List Char} (h : ∀ c ∈ cs, c.utf8Size = 1) : width cs = cs.length := by
  induction cs with
  | nil => rfl
  | cons c cs ih =>
    rw [width, h c List.mem_cons_self, ih fun d hd => h d (List.mem_cons_of_mem c hd),
      List.length_cons, Nat.add_comm]

theorem utf8ByteSize_escaped_le (b : UInt8) : (escaped (Char.ofUInt8 b)).utf8ByteSize ≤ 6 :=
  forall_byte (P := fun b => (escaped (Char.ofUInt8 b)).utf8ByteSize ≤ 6) (by decide +kernel) b

end Text

/-- The text about an error is no longer than a token. -/
def TokenError.Fits (e : TokenError) : Prop := e.text.utf8ByteSize ≤ maxTokenLength

theorem TokenError.fits_unknownCharacter (b : UInt8) :
    (unknownCharacter (Char.ofUInt8 b)).Fits := by
  have hescaped := Text.utf8ByteSize_escaped_le b
  have hsize : (unknownCharacter (Char.ofUInt8 b)).text.utf8ByteSize =
      25 + (Text.escaped (Char.ofUInt8 b)).utf8ByteSize + 1 := by
    simp only [unknownCharacter, text, String.utf8ByteSize_append]
    rfl
  rw [Fits, hsize, maxTokenLength]
  omega

theorem TokenError.Arises.fits {e : TokenError} (h : e.Arises) : e.Fits := by
  cases h with
  | tooLong =>
    show tooLongText.utf8ByteSize ≤ maxTokenLength
    decide
  | unterminatedComment =>
    show unterminatedCommentText.utf8ByteSize ≤ maxTokenLength
    decide
  | unknownCharacter b => exact fits_unknownCharacter b
  | _ => exact Nat.zero_le _

def Reading.ErrorsFit {α : Type} (r : Reading α) : Prop := ∀ e, r.1 = .error e → e.Fits

/-- No error that a reading brings has a text longer than a token. -/
theorem errorsFit_nextToken (s : ByteStream) : (nextToken s).ErrorsFit := by
  intro e h
  exact (errorsArise_nextToken s e h).fits

end CDeclarations
