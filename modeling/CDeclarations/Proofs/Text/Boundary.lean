import CDeclarations.Text.Bytes
import CDeclarations.Text.Capped
import Mathlib.Data.Nat.Find

namespace CDeclarations.Text

section Cut

/-- A place among the bytes of a text that is not inside of a character: a character begins there,
or the text ends. -/
def IsBoundary (text : String) (i : Nat) : Prop :=
  i = text.utf8ByteSize ∨ ∃ h : i < text.utf8ByteSize, (text.getUTF8Byte ⟨i⟩ h).IsUTF8FirstByte

instance (text : String) : DecidablePred (IsBoundary text) := fun i =>
  inferInstanceAs (Decidable (i = _ ∨ ∃ _ : i < text.utf8ByteSize, _))

/-- The part of a text in front of a place. A text cannot be cut inside of a character. -/
def front? (text : String) (i : Nat) : Option String :=
  if IsBoundary text i then decode? ((utf8 text).take i) else none

/-- A text that has too many bytes is cut at the last place at which it can be, looked for byte by
byte from the limit back. -/
def cutBack? (limit : Nat) (text : String) : Option String :=
  if text.utf8ByteSize ≤ limit then some text
  else front? text (Nat.findGreatest (IsBoundary text) limit)

/-- What is kept of a text are its bytes up to its last boundary within the limit, and these make a
text again. -/
structure IsLongestFront (limit : Nat) (text kept : String) : Prop where
  decodes : decode? ((utf8 text).take kept.utf8ByteSize) = some kept
  boundary : IsBoundary text kept.utf8ByteSize
  fits : kept.utf8ByteSize ≤ limit
  longest : ∀ i, IsBoundary text i → i ≤ limit → i ≤ kept.utf8ByteSize
  eq_iff : kept = text ↔ text.utf8ByteSize ≤ limit
  shortfall : limit < text.utf8ByteSize → limit ≤ kept.utf8ByteSize + 3
  found : cutBack? limit text = some kept

end Cut

section Width

variable {room : Nat} {front cs : List Char}

theorem width_append (front behind : List Char) :
    width (front ++ behind) = width front + width behind := by
  induction front with
  | nil => exact (Nat.zero_add _).symm
  | cons c front ih =>
    rw [List.cons_append, width, width, ih, Nat.add_assoc]

theorem width_le_of_prefix (h : front <+: cs) : width front ≤ width cs := by
  obtain ⟨behind, rfl⟩ := h
  rw [width_append]
  exact Nat.le_add_right _ _

/-- No beginning that fits has more characters. -/
theorem prefix_fitting (h : front <+: cs) (hroom : width front ≤ room) :
    front <+: fitting room cs := by
  induction cs generalizing room front with
  | nil => exact h
  | cons c cs ih =>
    cases front with
    | nil => exact List.nil_prefix
    | cons d front =>
      obtain ⟨rfl, hfront⟩ := List.cons_prefix_cons.mp h
      rw [width] at hroom
      have hhead : d.utf8Size ≤ room := by omega
      have hrest : width front ≤ room - d.utf8Size := by omega
      rw [fitting, if_pos hhead]
      exact List.cons_prefix_cons.mpr ⟨rfl, ih hfront hrest⟩

/-- The first character that is left out does not fit, and it has four bytes at most. -/
theorem le_width_fitting_add_three (h : room < width cs) : room ≤ width (fitting room cs) + 3 := by
  induction cs generalizing room with
  | nil => exact absurd h (Nat.not_lt_zero _)
  | cons c cs ih =>
    have hc := c.utf8Size_le_four
    rw [width] at h
    rw [fitting]
    split
    · have hrest : room - c.utf8Size < width cs := by omega
      have hle := ih hrest
      rw [width]
      omega
    · omega

theorem width_toList (text : String) : width text.toList = text.utf8ByteSize := by
  rw [← utf8ByteSize_ofList, String.ofList_toList]

end Width

section Boundary

variable {limit i : Nat} {text : String}

/-- The text can be cut in two there. -/
theorem isBoundary_iff_exists_append :
    IsBoundary text i ↔ ∃ front behind, text = front ++ behind ∧ front.utf8ByteSize = i := by
  have hvalid : IsBoundary text i ↔ String.Pos.Raw.IsValid text ⟨i⟩ := by
    rw [String.Pos.Raw.isValid_iff_isUTF8FirstByte, IsBoundary, String.Pos.Raw.ext_iff]
    rfl
  rw [hvalid, String.Pos.Raw.isValid_iff_exists_append]
  constructor
  · intro h
    obtain ⟨front, behind, htext, hi⟩ := h
    exact ⟨front, behind, htext, (congrArg String.Pos.Raw.byteIdx hi).symm⟩
  · intro h
    obtain ⟨front, behind, htext, rfl⟩ := h
    exact ⟨front, behind, htext, rfl⟩

theorem decode?_utf8 (text : String) : decode? (utf8 text) = some text := by
  have hbytes : (⟨(utf8 text).toArray⟩ : ByteArray) = text.toByteArray := by
    rw [utf8, Array.toArray_toList]
  rw [decode?, hbytes, String.fromUTF8?, dif_pos text.isValidUTF8]
  rfl

theorem decode?_take_append (front behind : String) :
    decode? ((utf8 (front ++ behind)).take front.utf8ByteSize) = some front := by
  rw [utf8_append, ← length_utf8, List.take_left, decode?_utf8]

theorem exists_capped_append (limit : Nat) (text : String) :
    ∃ behind, text = capped limit text ++ behind := by
  obtain ⟨behind, hbehind⟩ := fitting_prefix limit text.toList
  refine ⟨.ofList behind, ?_⟩
  rw [capped, ← String.ofList_append, hbehind, String.ofList_toList]

theorem isBoundary_capped (limit : Nat) (text : String) :
    IsBoundary text (capped limit text).utf8ByteSize := by
  obtain ⟨behind, hbehind⟩ := exists_capped_append limit text
  exact isBoundary_iff_exists_append.mpr ⟨_, behind, hbehind, rfl⟩

theorem IsBoundary.le_capped (h : IsBoundary text i) (hi : i ≤ limit) :
    i ≤ (capped limit text).utf8ByteSize := by
  obtain ⟨front, behind, rfl, rfl⟩ := isBoundary_iff_exists_append.mp h
  have hprefix : front.toList <+: (front ++ behind).toList := by
    rw [String.toList_append]
    exact List.prefix_append _ _
  rw [← width_toList] at hi ⊢
  rw [capped, utf8ByteSize_ofList]
  exact width_le_of_prefix (prefix_fitting hprefix hi)

/-- Going back from the limit, the end of what fits is the first boundary to be met. -/
theorem findGreatest_isBoundary (limit : Nat) (text : String) :
    Nat.findGreatest (IsBoundary text) limit = (capped limit text).utf8ByteSize := by
  rw [Nat.findGreatest_eq_iff]
  refine ⟨utf8ByteSize_capped_le limit text, fun _ => isBoundary_capped limit text, ?_⟩
  intro i hlt hi hboundary
  have hle := hboundary.le_capped hi
  omega

theorem decode?_take_capped (limit : Nat) (text : String) :
    decode? ((utf8 text).take (capped limit text).utf8ByteSize) = some (capped limit text) := by
  obtain ⟨behind, hbehind⟩ := exists_capped_append limit text
  have hfront := decode?_take_append (capped limit text) behind
  rwa [← hbehind] at hfront

/-- There always is a place to cut at, and no character is cut. -/
theorem cutBack?_eq (limit : Nat) (text : String) :
    cutBack? limit text = some (capped limit text) := by
  rw [cutBack?]
  split
  · rename_i hfits
    rw [capped_eq_self hfits]
  · rw [findGreatest_isBoundary, front?, if_pos (isBoundary_capped limit text),
      decode?_take_capped]

theorem capped_eq_iff : capped limit text = text ↔ text.utf8ByteSize ≤ limit := by
  constructor
  · intro h
    rw [← h]
    exact utf8ByteSize_capped_le limit text
  · exact capped_eq_self

theorem isLongestFront_capped (limit : Nat) (text : String) :
    IsLongestFront limit text (capped limit text) where
  decodes := decode?_take_capped limit text
  boundary := isBoundary_capped limit text
  fits := utf8ByteSize_capped_le limit text
  longest _ hboundary hi := hboundary.le_capped hi
  eq_iff := capped_eq_iff
  shortfall h := by
    rw [← width_toList] at h
    rw [capped, utf8ByteSize_ofList]
    exact le_width_fitting_add_three h
  found := cutBack?_eq limit text

/-- There are not two such beginnings of a text. -/
theorem IsLongestFront.unique {kept other : String} (h : IsLongestFront limit text kept)
    (hother : IsLongestFront limit text other) : kept = other := by
  have hsize : kept.utf8ByteSize = other.utf8ByteSize := by
    apply Nat.le_antisymm
    · exact hother.longest _ h.boundary h.fits
    · exact h.longest _ hother.boundary hother.fits
  have hdecodes := hother.decodes
  rw [← hsize, h.decodes] at hdecodes
  exact Option.some.inj hdecodes

/-- Characters of one, two and three bytes. -/
example : (List.range 7).map (cutBack? · "aé€") =
    [some "", some "a", some "a", some "aé", some "aé", some "aé", some "aé€"] := by
  decide

end Boundary

end CDeclarations.Text
