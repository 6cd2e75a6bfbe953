import CDeclarations.Text.Capped
import Mathlib.Data.List.Basic

namespace CDeclarations.Text

/-- Each character of the text is written as one byte. -/
def IsAscii (text : String) : Prop := ∀ c ∈ text.toList, c.utf8Size = 1

instance (text : String) : Decidable (IsAscii text) :=
  decidable_of_iff (text.toList.all fun c => c.utf8Size == 1) (by simp [IsAscii])

section

variable {text : String} {c : Char}

theorem isAscii_append {a b : String} : IsAscii (a ++ b) ↔ IsAscii a ∧ IsAscii b := by
  rw [IsAscii, String.toList_append, List.forall_mem_append]
  rfl

theorem ofUInt8_toUInt8 (h : c.utf8Size = 1) : Char.ofUInt8 c.toUInt8 = c := by
  have hsize := Char.utf8Size_eq_one_iff.mp h
  have hle : c.val.toNat ≤ 127 := UInt32.le_iff_toNat_le.mp hsize
  have hback : (c.val.toUInt8.toUInt32).toNat = c.val.toNat := by
    rw [UInt8.toNat_toUInt32, UInt32.toNat_toUInt8]
    omega
  exact Char.ext (UInt32.toNat_inj.mp hback)

theorem utf8_ofList (cs : List Char) :
    utf8 (String.ofList cs) = cs.flatMap String.utf8EncodeChar := by
  simp [utf8, List.utf8Encode]

theorem IsAscii.utf8_eq (h : IsAscii text) : utf8 text = text.toList.map Char.toUInt8 := by
  have hbyte : ∀ c ∈ text.toList, String.utf8EncodeChar c = [c.toUInt8] := fun c hc =>
    String.utf8EncodeChar_eq_singleton (h c hc)
  have hchars : text = String.ofList text.toList := String.ofList_toList.symm
  rw [hchars, utf8_ofList, String.toList_ofList, List.map_eq_flatMap]
  exact List.flatMap_congr hbyte

theorem IsAscii.map_utf8 (h : IsAscii text) : (utf8 text).map Char.ofUInt8 = text.toList := by
  rw [h.utf8_eq, List.map_map]
  exact (List.map_congr_left fun c hc => ofUInt8_toUInt8 (h c hc)).trans (List.map_id _)

/-- A character that the text does not have is not among its bytes either. -/
theorem IsAscii.toUInt8_notMem (h : IsAscii text) (hc : c.utf8Size = 1) (hmem : c ∉ text.toList) :
    c.toUInt8 ∉ utf8 text := by
  intro hbyte
  have hback : Char.ofUInt8 c.toUInt8 ∈ text.toList := h.map_utf8 ▸ List.mem_map_of_mem hbyte
  rw [ofUInt8_toUInt8 hc] at hback
  exact hmem hback

theorem fitting_eq_take {cs : List Char} (h : ∀ c ∈ cs, c.utf8Size = 1) (room : Nat) :
    fitting room cs = cs.take room := by
  induction cs generalizing room with
  | nil => rw [fitting, List.take_nil]
  | cons c cs ih =>
    obtain ⟨hc, hcs⟩ := List.forall_mem_cons.mp h
    rw [fitting, hc]
    cases room with
    | zero => rfl
    | succ room =>
      rw [if_pos (Nat.le_add_left 1 room), Nat.add_sub_cancel, ih hcs, List.take_succ_cons]

/-- A text of such characters is cut at the very byte that is the last to fit. -/
theorem IsAscii.utf8_capped (h : IsAscii text) (limit : Nat) :
    utf8 (capped limit text) = (utf8 text).take limit := by
  have hcapped : capped limit text = .ofList (text.toList.take limit) := by
    rw [capped, fitting_eq_take h]
  have hascii : IsAscii (capped limit text) := by
    intro c hc
    rw [hcapped, String.toList_ofList] at hc
    exact h c (List.mem_of_mem_take hc)
  rw [hascii.utf8_eq, h.utf8_eq, hcapped, String.toList_ofList, List.map_take]

end

end CDeclarations.Text
