import CDeclarations.Proofs.Diagnostic.Rows
import Mathlib.Data.List.DropRight

namespace CDeclarations

section Decoder

/-- A text without its first characters. -/
def Text.behind (n : Nat) (text : String) : String := .ofList (text.toList.drop n)

/-- The parts of a place in front of its last colon and behind it: a file and a number. -/
def Text.placeParts (place : String) : String × Nat :=
  (.ofList (place.toList.rdropWhile (· ≠ ':')).dropLast,
    Nat.ofDigitChars 10 (place.toList.rtakeWhile (· ≠ ':')) 0)

/-- What the rows of a message are about. Once the number of the line is known, all else is found by
the width of the gutter. -/
def Finding.ofRows (first place line : String) (note : Option String) : String × Finding :=
  let parts := Text.placeParts (Text.behind " --> ".length place)
  let margin := (gutter parts.2).length
  (parts.1, ⟨Text.behind "error: ".length first, parts.2, Text.behind margin line,
    note.map (Text.behind (margin + "= ".length))⟩)

/-- The file and the finding that a message without colors is about. -/
def Finding.ofText? (text : String) : Option (String × Finding) :=
  match Text.rows text with
  | [first, place, line] => some (ofRows first place line none)
  | [first, place, line, note] => some (ofRows first place line (some note))
  | _ => none

end Decoder

section Width

theorem length_blanks (n : Nat) : (blanks n).length = n := by
  rw [blanks, String.length_ofList, List.length_replicate]

/-- A number that is too wide for its columns makes the gutter wider, and not the gap less. -/
theorem length_gutter (number : Nat) :
    (gutter number).length = max 6 (toString number).length + 3 := by
  have hbar : " | ".length = 3 := rfl
  rw [gutter, String.length_append, String.length_append, length_blanks, hbar]
  omega

end Width

section Decode

variable {file : String} {f : Finding}

theorem Text.behind_append (front text : String) : behind front.length (front ++ text) = text := by
  rw [behind, String.toList_append, ← String.length_toList, List.drop_left, String.ofList_toList]

/-- There is no colon in a number, whatever the file is called. -/
theorem Text.placeParts_append (file : String) (n : Nat) :
    placeParts (file ++ ":" ++ toString n) = (file, n) := by
  have hdigits : ∀ c ∈ (toString n).toList.reverse, decide (c ≠ ':') = true := by
    intro c hc
    have hdigit := isDigit_of_mem_toString (List.mem_reverse.mp hc)
    refine decide_eq_true fun hcolon => ?_
    rw [hcolon] at hdigit
    exact absurd hdigit (by decide)
  -- From behind, the colon in front of the number is met first.
  have hchars : (file ++ ":" ++ toString n).toList.reverse =
      (toString n).toList.reverse ++ ':' :: file.toList.reverse := by
    simp only [String.toList_append, List.reverse_append]
    rfl
  have hnumber : Nat.ofDigitChars 10 (toString n).toList 0 = n := by
    rw [Nat.toString_eq_ofList_toDigits, String.toList_ofList, Nat.ofDigitChars_ten_toDigits]
  rw [placeParts, List.rdropWhile, List.rtakeWhile, hchars,
    List.dropWhile_append_of_pos hdigits, List.takeWhile_append_of_pos hdigits,
    List.dropWhile_cons_of_neg (by decide), List.takeWhile_cons_of_neg (by decide),
    List.append_nil, List.reverse_reverse, List.reverse_cons, List.reverse_reverse,
    List.dropLast_concat, String.ofList_toList, hnumber]

theorem Finding.ofRows_eq (file : String) (f : Finding) :
    ofRows ("error: " ++ f.headline) (" --> " ++ file ++ ":" ++ toString f.number)
      (gutter f.number ++ f.line) (f.note.map (noteRow f.number)) = (file, f) := by
  have hplace : Text.behind " --> ".length (" --> " ++ file ++ ":" ++ toString f.number) =
      file ++ ":" ++ toString f.number := by
    rw [String.append_assoc, String.append_assoc, Text.behind_append, String.append_assoc]
  have hnote : ∀ note, Text.behind ((gutter f.number).length + "= ".length)
      (noteRow f.number note) = note := by
    intro note
    have hindent : (blanks (gutter f.number).length ++ "= ").length =
        (gutter f.number).length + "= ".length := by rw [String.length_append, length_blanks]
    rw [← hindent, noteRow, Text.behind_append]
  have hnotes : (f.note.map (noteRow f.number)).map
      (Text.behind ((gutter f.number).length + "= ".length)) = f.note := by
    cases f.note with
    | none => rfl
    | some note => exact congrArg some (hnote note)
  simp only [ofRows, hplace, Text.placeParts_append, hnotes, Text.behind_append]

/-- What a message is about can be found in its rows. -/
theorem Finding.ofText?_render (hfile : '\n' ∉ file.toList) (h : f.FitsRows) :
    ofText? (((Diagnostic.ofFile (some file)).about f).render false) = some (file, f) := by
  have hplace : '\n' ∉ ((some file).getD "<stdin>").toList := hfile
  have hrows := h.rows_render hplace
  have hparts := ofRows_eq file f
  rw [Finding.rows] at hrows
  rw [ofText?, hrows]
  cases hnote : f.note with
  | none =>
    rw [hnote] at hparts
    exact congrArg some hparts
  | some note =>
    rw [hnote] at hparts
    exact congrArg some hparts

end Decode

/-- The text of a message tells in which file what was found about which line, and nothing that is
found elsewhere or otherwise makes the same text. However wide the number of the line is, the note
under it begins in the column in which the line does. -/
theorem render_unambiguous {file : String} {f : Finding} (hfile : '\n' ∉ file.toList)
    (h : f.FitsRows) :
    let render (file : String) (f : Finding) :=
      ((Diagnostic.ofFile (some file)).about f).render false
    Finding.ofText? (render file f) = some (file, f) ∧
    (∀ (other : String) (g : Finding), '\n' ∉ other.toList → g.FitsRows →
      render other g = render file f → other = file ∧ g = f) ∧
    (gutter f.number).length = max 6 (toString f.number).length + 3 ∧
    ∀ note, f.note = some note →
      let indent := blanks (gutter f.number).length
      indent.length = (gutter f.number).length ∧
      Text.rows (render file f) =
        ["error: " ++ f.headline, " --> " ++ file ++ ":" ++ toString f.number,
          gutter f.number ++ f.line, indent ++ "= " ++ note] := by
  intro render
  have hdecoded := Finding.ofText?_render hfile h
  refine ⟨hdecoded, fun other g hother hg hsame => ?_, length_gutter f.number,
    fun note hnote => ⟨length_blanks _, ?_⟩⟩
  · have hdecoded' := Finding.ofText?_render hother hg
    have hboth : some (other, g) = some (file, f) := by
      rw [← hdecoded, ← hdecoded']
      exact congrArg Finding.ofText? hsame
    exact Prod.mk.inj (Option.some.inj hboth)
  · have hplace : '\n' ∉ ((some file).getD "<stdin>").toList := hfile
    have hrows := h.rows_render hplace
    rw [Finding.rows, hnote] at hrows
    exact hrows

/-- The number of this line is wider than its columns, and every part of the message has in it what
stands between the parts. -/
theorem render_unambiguous_wide :
    let file := "a:7 --> b"
    let f : Finding := ⟨"x: 3 | y", 12345678, "  = 1 | int a:2;", some "= --> c:9"⟩
    let text := ((Diagnostic.ofFile (some file)).about f).render false
    '\n' ∉ file.toList ∧ f.FitsRows ∧
    text = "error: x: 3 | y\n --> a:7 --> b:12345678\n12345678 |   = 1 | int a:2;\n" ++
      "           = = --> c:9" ∧
    Finding.ofText? text = some (file, f) ∧ (gutter 12345678).length = 11 := by
  intro file f text
  have hfile : '\n' ∉ file.toList := by decide
  have hfits : f.FitsRows := by
    refine ⟨by decide, by decide, fun note hnote => ?_⟩
    obtain rfl := Option.some.inj hnote
    decide
  obtain ⟨hdecoded, -, hgutter, -⟩ := render_unambiguous hfile hfits
  exact ⟨hfile, hfits, by decide +kernel, hdecoded, hgutter.trans (by decide +kernel)⟩

end CDeclarations
