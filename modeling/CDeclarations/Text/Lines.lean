namespace CDeclarations.Text

/-- The characters of a line that a newline ends, from those read so far, the last first. One
carriage return in front of the newline belongs to the newline. -/
def endedLine : List Char → List Char
  | '\r' :: read => read.reverse
  | read => read.reverse

/-- The lines of a text behind the characters read of its first line, the last first. -/
def linesFrom : List Char → List Char → List (List Char)
  | [], [] => []
  | c :: read, [] => [(c :: read).reverse]
  | read, '\n' :: cs => endedLine read :: linesFrom [] cs
  | read, c :: cs => linesFrom (c :: read) cs

/-- The lines of a text, without what ends them. The last one need not be ended. -/
def lines (text : String) : List String := (linesFrom [] text.toList).map .ofList

theorem linesFrom_line {line : List Char} (h : '\n' ∉ line) (read rest : List Char) :
    linesFrom read (line ++ '\n' :: rest) =
      endedLine (line.reverse ++ read) :: linesFrom [] rest := by
  induction line generalizing read with
  | nil => cases read <;> rfl
  | cons c line ih =>
    have hc : c ≠ '\n' := fun e => h (e ▸ List.mem_cons_self)
    have hline : '\n' ∉ line := fun hmem => h (List.mem_cons_of_mem _ hmem)
    rw [List.cons_append, linesFrom.eq_4 _ _ _ (fun he => hc he), ih hline]
    simp

theorem linesFrom_lastLine {line : List Char} (h : '\n' ∉ line) {read : List Char}
    (hne : line.reverse ++ read ≠ []) :
    linesFrom read line = [(line.reverse ++ read).reverse] := by
  induction line generalizing read with
  | nil =>
    cases read with
    | nil => exact absurd rfl hne
    | cons c read => rfl
  | cons c line ih =>
    have hc : c ≠ '\n' := fun e => h (e ▸ List.mem_cons_self)
    have hline : '\n' ∉ line := fun hmem => h (List.mem_cons_of_mem _ hmem)
    rw [List.reverse_cons, List.append_assoc, List.singleton_append] at hne ⊢
    rw [linesFrom.eq_4 _ _ _ (fun he => hc he), ih hline hne]

/-- What a line is cut by is at most a carriage return at its end. -/
theorem exists_eq_endedLine_append (line : List Char) :
    ∃ cut, line = endedLine line.reverse ++ cut ∧ (cut = [] ∨ cut = ['\r']) := by
  generalize hread : line.reverse = read
  have hline : line = read.reverse := by rw [← hread, List.reverse_reverse]
  unfold endedLine
  split
  · exact ⟨['\r'], by rw [hline, List.reverse_cons], .inr rfl⟩
  · exact ⟨[], by rw [hline, List.append_nil], .inl rfl⟩

end CDeclarations.Text
