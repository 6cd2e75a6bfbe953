import CDeclarations.Text.Bytes

namespace CDeclarations.Text

/-- How many bytes characters take when they are written out. -/
def width : List Char → Nat
  | [] => 0
  | c :: cs => c.utf8Size + width cs

/-- The characters from the front that together fit into so many bytes. -/
def fitting : Nat → List Char → List Char
  | _, [] => []
  | room, c :: cs => if c.utf8Size ≤ room then c :: fitting (room - c.utf8Size) cs else []

/-- The longest beginning of a text that has at most `limit` bytes and cuts no character. -/
def capped (limit : Nat) (text : String) : String := .ofList (fitting limit text.toList)

theorem fitting_prefix (room : Nat) (cs : List Char) : fitting room cs <+: cs := by
  induction cs generalizing room with
  | nil => exact List.prefix_rfl
  | cons c cs ih =>
    rw [fitting]
    split
    · exact List.cons_prefix_cons.mpr ⟨rfl, ih _⟩
    · exact List.nil_prefix

theorem width_fitting_le (room : Nat) (cs : List Char) : width (fitting room cs) ≤ room := by
  induction cs generalizing room with
  | nil => exact Nat.zero_le _
  | cons c cs ih =>
    rw [fitting]
    split
    · have hle := ih (room - c.utf8Size)
      rw [width]
      omega
    · exact Nat.zero_le _

theorem fitting_eq_self {room : Nat} {cs : List Char} (h : width cs ≤ room) :
    fitting room cs = cs := by
  induction cs generalizing room with
  | nil => rfl
  | cons c cs ih =>
    rw [width] at h
    rw [fitting, if_pos (by omega), ih (by omega)]

theorem utf8ByteSize_ofList (cs : List Char) : (String.ofList cs).utf8ByteSize = width cs := by
  induction cs with
  | nil => rfl
  | cons c cs ih =>
    rw [← List.singleton_append, String.ofList_append, String.utf8ByteSize_append, ih]
    simp [width]

theorem utf8ByteSize_capped_le (limit : Nat) (text : String) :
    (capped limit text).utf8ByteSize ≤ limit := by
  rw [capped, utf8ByteSize_ofList]
  exact width_fitting_le limit _

/-- A text that fits is left alone. -/
theorem capped_eq_self {limit : Nat} {text : String} (h : text.utf8ByteSize ≤ limit) :
    capped limit text = text := by
  rw [← String.ofList_toList (s := text), utf8ByteSize_ofList] at h
  rw [capped, fitting_eq_self h, String.ofList_toList]

end CDeclarations.Text
