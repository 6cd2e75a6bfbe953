import CDeclarations.Text.Bytes
import Mathlib.Data.List.TakeWhile

namespace CDeclarations.Text

/-- The rows of a text, between which the newlines stand. -/
def rows (text : String) : List String := (text.toList.splitOn '\n').map .ofList

theorem rows_row {row : String} (h : '\n' ∉ row.toList) : rows row = [row] := by
  rw [rows, List.splitOn_eq_singleton h, List.map_singleton, String.ofList_toList]

theorem rows_append (a b : String) : rows (a ++ "\n" ++ b) = rows a ++ rows b := by
  have htext : (a ++ "\n" ++ b).toList = a.toList ++ '\n' :: b.toList := by simp
  rw [rows, htext, List.splitOn_append_cons_self, List.map_append]
  rfl

/-- Texts in which there is no newline are the rows of what they are joined to. -/
theorem rows_intercalate {texts : List String} (h : ∀ text ∈ texts, '\n' ∉ text.toList)
    (hne : texts ≠ []) : rows ("\n".intercalate texts) = texts := by
  have hchars : ("\n".intercalate texts).toList = ['\n'].intercalate (texts.map String.toList) :=
    String.toList_intercalate
  have hrows : ∀ row ∈ texts.map String.toList, '\n' ∉ row := List.forall_mem_map.mpr h
  rw [rows, hchars, List.splitOn_intercalate '\n' hrows (by simpa using hne), List.map_map]
  exact (List.map_congr_left fun text _ => String.ofList_toList).trans (List.map_id _)

theorem rows_ne_nil (text : String) : rows text ≠ [] := by
  rw [rows, Ne, List.map_eq_nil_iff]
  exact List.splitOn_ne_nil _ _

/-- The parts of a row in front of its first blank and behind it. -/
def columns (row : String) : String × String :=
  (.ofList (row.toList.takeWhile (· ≠ ' ')), .ofList ((row.toList.dropWhile (· ≠ ' ')).drop 1))

theorem columns_of_blank_notMem {row : String} (h : ' ' ∉ row.toList) : columns row = (row, "") := by
  have hall : ∀ c ∈ row.toList, decide (c ≠ ' ') = true := by
    intro c hc
    exact decide_eq_true fun heq => h (heq ▸ hc)
  rw [columns, List.takeWhile_eq_self_iff.mpr hall, List.dropWhile_eq_nil_iff.mpr hall,
    String.ofList_toList]
  rfl

theorem columns_append {first : String} (h : ' ' ∉ first.toList) (second : String) :
    columns (first ++ " " ++ second) = (first, second) := by
  have hall : ∀ c ∈ first.toList, decide (c ≠ ' ') = true := by
    intro c hc
    exact decide_eq_true fun heq => h (heq ▸ hc)
  have hrow : (first ++ " " ++ second).toList = first.toList ++ ' ' :: second.toList := by simp
  rw [columns, hrow, List.takeWhile_append_of_pos hall, List.dropWhile_append_of_pos hall,
    List.takeWhile_cons_of_neg (by decide), List.dropWhile_cons_of_neg (by decide),
    List.append_nil, List.drop_one, List.tail_cons, String.ofList_toList, String.ofList_toList]

end CDeclarations.Text
