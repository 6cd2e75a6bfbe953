import CDeclarations.Proofs.Text.Printable
import CDeclarations.Proofs.Text.Rows
import CDeclarations.Session.Run

namespace CDeclarations

/-- No part of a finding takes more than one row. -/
structure Finding.FitsRows (f : Finding) : Prop where
  headline : '\n' ∉ f.headline.toList
  line : '\n' ∉ f.line.toList
  note : ∀ note, f.note = some note → '\n' ∉ note.toList

/-- The row under a numbered line: the note, in the column in which the line begins. -/
def noteRow (number : Nat) (note : String) : String :=
  blanks (gutter number).length ++ "= " ++ note

/-- The rows of a message about a finding in a file. -/
def Finding.rows (file : String) (f : Finding) : List String :=
  ["error: " ++ f.headline, " --> " ++ file ++ ":" ++ toString f.number,
    gutter f.number ++ f.line] ++ (f.note.map (noteRow f.number)).toList

section Rows

variable {file : String} {f : Finding}

theorem newline_notMem_toString (n : Nat) : '\n' ∉ (toString n).toList :=
  (Text.isPrintable_toString n).newline_notMem

theorem newline_notMem_blanks (n : Nat) : '\n' ∉ (blanks n).toList := by
  rw [blanks, String.toList_ofList]
  intro hmem
  have hblank := List.eq_of_mem_replicate hmem
  exact absurd hblank (by decide)

theorem newline_notMem_gutter (number : Nat) : '\n' ∉ (gutter number).toList := by
  have hblanks := newline_notMem_blanks (6 - (toString number).length)
  have hnumber := newline_notMem_toString number
  simp only [gutter, String.toList_append, List.mem_append, hblanks, hnumber, or_self,
    false_or]
  decide

theorem Finding.FitsRows.newline_notMem (h : f.FitsRows) (hfile : '\n' ∉ file.toList) :
    ∀ row ∈ f.rows file, '\n' ∉ row.toList := by
  have hnumber := newline_notMem_toString f.number
  have hgutter := newline_notMem_gutter f.number
  have hblanks := newline_notMem_blanks (gutter f.number).length
  intro row hrow
  rcases List.mem_append.mp hrow with hfirst | hnote
  · have hthree : row = "error: " ++ f.headline ∨
        row = " --> " ++ file ++ ":" ++ toString f.number ∨ row = gutter f.number ++ f.line := by
      simpa using hfirst
    rcases hthree with rfl | rfl | rfl
    · simp [h.headline]
    · simp only [String.toList_append, List.mem_append, hfile, hnumber, or_false]
      decide
    · simp [hgutter, h.line]
  · obtain ⟨note, hsome, rfl⟩ := Option.map_eq_some_iff.mp (Option.mem_toList.mp hnote)
    simp [noteRow, hblanks, h.note note hsome]

/-- A message without colors is its rows, between which newlines stand. -/
theorem render_about (file : Option String) (f : Finding) :
    ((Diagnostic.ofFile file).about f).render false =
      "\n".intercalate (f.rows (file.getD "<stdin>")) := by
  have herror : "error: " = "error:" ++ " " := rfl
  have hplace : "\n " ++ "-->" ++ " " = "\n" ++ " --> " := rfl
  have hnote : (f.note <|> (Diagnostic.ofFile file).note) = f.note := by cases f.note <;> rfl
  simp only [Diagnostic.render, Diagnostic.about, hnote, Finding.rows, excerpt, Style.paint_false,
    herror, hplace]
  cases f.note with
  | none =>
    simp only [Option.map_none, Option.toList_none, List.append_nil, String.intercalate_cons_cons,
      String.intercalate_singleton, String.append_assoc, String.append_empty]
    rfl
  | some note =>
    simp only [Option.map_some, Option.toList_some, List.cons_append, List.nil_append, noteRow,
      String.intercalate_cons_cons, String.intercalate_singleton, String.append_assoc]
    rfl

theorem Finding.FitsRows.rows_render {file : Option String}
    (hfile : '\n' ∉ (file.getD "<stdin>").toList) (h : f.FitsRows) :
    Text.rows (((Diagnostic.ofFile file).about f).render false) =
      f.rows (file.getD "<stdin>") := by
  rw [render_about]
  exact Text.rows_intercalate (h.newline_notMem hfile) (List.cons_ne_nil _ _)

/-- Each message ends its last row, so that the rows of all of them stand one after another. -/
theorem rows_renderFindings {file : Option String}
    (hfile : '\n' ∉ (file.getD "<stdin>").toList) {findings : List Finding}
    (h : ∀ f ∈ findings, f.FitsRows) :
    Text.rows (renderFindings false (.ofFile file) findings) =
      findings.flatMap (·.rows (file.getD "<stdin>")) ++ [""] := by
  induction findings with
  | nil =>
    have hnone : '\n' ∉ "".toList := by decide
    exact Text.rows_row hnone
  | cons f findings ih =>
    obtain ⟨hfirst, hlater⟩ := List.forall_mem_cons.mp h
    have hcons : renderFindings false (.ofFile file) (f :: findings) =
        ((Diagnostic.ofFile file).about f).render false ++ "\n" ++
          renderFindings false (.ofFile file) findings := by
      simp only [renderFindings, List.map_cons, String.join_cons]
    rw [hcons, Text.rows_append, hfirst.rows_render hfile, ih hlater, List.flatMap_cons,
      List.append_assoc]

end Rows

end CDeclarations
