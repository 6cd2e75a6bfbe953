import CDeclarations.Proofs.Text.Ascii
import CDeclarations.Text.Ascii

namespace CDeclarations.Text

/-- The text is made of the blank and of the characters of ASCII that can be seen. -/
def IsPrintable (text : String) : Prop := ∀ c ∈ text.toList, ' ' ≤ c ∧ c ≤ '~'

instance (text : String) : Decidable (IsPrintable text) :=
  decidable_of_iff (text.toList.all fun c => ' ' ≤ c && c ≤ '~') (by simp [IsPrintable])

section

variable {text : String} {c : Char}

theorem isPrintable_empty : IsPrintable "" := by decide

theorem IsPrintable.append {a b : String} (ha : IsPrintable a) (hb : IsPrintable b) :
    IsPrintable (a ++ b) := by
  rw [IsPrintable, String.toList_append, List.forall_mem_append]
  exact ⟨ha, hb⟩

theorem printable_of_isWordChar (h : isWordChar c) : ' ' ≤ c ∧ c ≤ '~' := by
  have h : (decide (c.val ≥ 'A'.val ∧ c.val ≤ 'Z'.val) ||
      (decide (c.val ≥ 'a'.val) && decide (c.val ≤ 'z'.val)) ||
      (decide (c.val ≥ '0'.val) && decide (c.val ≤ '9'.val)) || decide (c = '_')) = true := h
  simp only [Bool.or_eq_true, Bool.and_eq_true, decide_eq_true_eq, ge_iff_le] at h
  rcases h with ((⟨hge, hle⟩ | ⟨hge, hle⟩) | ⟨hge, hle⟩) | rfl
  · exact ⟨UInt32.le_trans (by decide) hge, UInt32.le_trans hle (by decide)⟩
  · exact ⟨UInt32.le_trans (by decide) hge, UInt32.le_trans hle (by decide)⟩
  · exact ⟨UInt32.le_trans (by decide) hge, UInt32.le_trans hle (by decide)⟩
  · decide

theorem isPrintable_of_isWordChar (h : ∀ c ∈ text.toList, isWordChar c) : IsPrintable text :=
  fun c hc => printable_of_isWordChar (h c hc)

theorem isDigit_of_mem_toString {n : Nat} (h : c ∈ (toString n).toList) : c.isDigit := by
  rw [Nat.toString_eq_ofList_toDigits, String.toList_ofList] at h
  exact Nat.isDigit_of_mem_toDigits (by decide) (by decide) h

theorem isPrintable_toString (n : Nat) : IsPrintable (toString n) :=
  isPrintable_of_isWordChar fun _ hc => isWordChar_of_isDigit (isDigit_of_mem_toString hc)

/-- There are so few bytes that all of them can be looked at. -/
theorem forall_byte {P : UInt8 → Prop} (h : ∀ n : Fin 256, P (.ofNat n)) (b : UInt8) : P b := by
  have hb := h ⟨b.toNat, b.toNat_lt⟩
  rwa [UInt8.ofNat_toNat] at hb

/-- No byte is shown by what cannot be seen. -/
theorem isPrintable_escaped (b : UInt8) : IsPrintable (escaped (Char.ofUInt8 b)) :=
  forall_byte (P := fun b => IsPrintable (escaped (Char.ofUInt8 b))) (by decide +kernel) b

theorem IsPrintable.capped (h : IsPrintable text) (limit : Nat) :
    IsPrintable (capped limit text) := by
  intro c hc
  have hbegins := fitting_prefix limit text.toList
  rw [Text.capped, String.toList_ofList] at hc
  exact h c (hbegins.mem hc)

theorem utf8Size_of_printable (h : ' ' ≤ c ∧ c ≤ '~') : c.utf8Size = 1 :=
  Char.utf8Size_eq_one_iff.mpr (UInt32.le_trans h.2 (by decide))

theorem IsPrintable.isAscii (h : IsPrintable text) : IsAscii text := fun c hc =>
  utf8Size_of_printable (h c hc)

theorem IsPrintable.newline_notMem (h : IsPrintable text) : '\n' ∉ text.toList := fun hmem =>
  absurd (h _ hmem).1 (by decide)

/-- Each byte of it is that of a blank or of something that can be seen. -/
theorem IsPrintable.utf8 (h : IsPrintable text) :
    ∀ b ∈ Text.utf8 text, 0x20 ≤ b.toNat ∧ b.toNat ≤ 0x7e := by
  intro b hb
  rw [h.isAscii.utf8_eq] at hb
  obtain ⟨c, hc, rfl⟩ := List.mem_map.mp hb
  obtain ⟨hge, hle⟩ := h c hc
  have hge : 32 ≤ c.val.toNat := hge
  have hle : c.val.toNat ≤ 126 := hle
  have hbyte : c.toUInt8.toNat = c.val.toNat % 256 := UInt32.toNat_toUInt8 _
  omega

end

end CDeclarations.Text
