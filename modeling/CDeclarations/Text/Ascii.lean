namespace CDeclarations.Text

/-- Blank, tab, line feed, vertical tab, form feed and carriage return, which are the white
space of C. -/
def isSpace (c : Char) : Bool := c = ' ' || ('\t' ≤ c && c ≤ '\r')

/-- A letter or an underscore. Letters are those of ASCII. -/
def isWordStart (c : Char) : Bool := c.isAlpha || c = '_'

def isWordChar (c : Char) : Bool := c.isAlphanum || c = '_'

def isHexDigit (c : Char) : Bool :=
  c.isDigit || ('a' ≤ c && c ≤ 'f') || ('A' ≤ c && c ≤ 'F')

theorem isWordChar_of_isWordStart {c : Char} (h : isWordStart c) : isWordChar c := by
  simp only [isWordStart, isWordChar, Char.isAlphanum, Bool.or_eq_true] at h ⊢
  exact h.imp_left .inl

theorem isWordChar_of_isDigit {c : Char} (h : c.isDigit) : isWordChar c := by
  simp [isWordChar, Char.isAlphanum, h]

theorem isWordChar_of_isHexDigit {c : Char} (h : isHexDigit c) : isWordChar c := by
  simp only [isHexDigit, Bool.or_eq_true, Bool.and_eq_true, decide_eq_true_eq, Char.le_def] at h
  show (c.isUpper || c.isLower || c.isDigit || decide (c = '_')) = true
  rcases h with (hdigit | ⟨ha, hf⟩) | ⟨hA, hF⟩
  · exact isWordChar_of_isDigit hdigit
  · have hlower : c.isLower = true := by
      show (decide (c.val ≥ 'a'.val) && decide (c.val ≤ 'z'.val)) = true
      rw [decide_eq_true ha, decide_eq_true (UInt32.le_trans hf (by decide))]
      rfl
    simp [hlower]
  · have hupper : c.isUpper = true := decide_eq_true ⟨hA, UInt32.le_trans hF (by decide)⟩
    simp [hupper]

theorem isSpace_eq_false_of_lt {c : Char} (h : ' ' < c) : isSpace c = false := by
  have hlt : 32 < c.val.toNat := h
  simp only [isSpace, Bool.or_eq_false_iff, decide_eq_false_iff_not, Bool.and_eq_false_iff,
    Char.le_def, UInt32.le_iff_toNat_le]
  refine ⟨?_, .inr ?_⟩
  · rintro rfl
    exact Nat.lt_irrefl _ hlt
  · intro hle
    have : c.val.toNat ≤ 13 := hle
    omega

theorem toNat_of_isDigit {c : Char} (h : c.isDigit) :
    48 ≤ c.val.toNat ∧ c.val.toNat ≤ 57 := by
  simp only [Char.isDigit, ge_iff_le, Bool.and_eq_true, decide_eq_true_eq,
    UInt32.le_iff_toNat_le] at h
  exact h

theorem toNat_of_isWordStart {c : Char} (h : isWordStart c) : 65 ≤ c.val.toNat := by
  have h : (decide (c.val ≥ 'A'.val ∧ c.val ≤ 'Z'.val) ||
      (decide (c.val ≥ 'a'.val) && decide (c.val ≤ 'z'.val)) || decide (c = '_')) = true := h
  simp only [Bool.or_eq_true, Bool.and_eq_true, decide_eq_true_eq, ge_iff_le,
    UInt32.le_iff_toNat_le] at h
  rcases h with (⟨h, _⟩ | ⟨h, _⟩) | rfl
  · exact h
  · have hle : 97 ≤ c.val.toNat := h
    omega
  · decide

theorem isSpace_eq_false_of_isDigit {c : Char} (h : c.isDigit) : isSpace c = false := by
  refine isSpace_eq_false_of_lt ?_
  have hle := (toNat_of_isDigit h).1
  show 32 < c.val.toNat
  omega

theorem isSpace_eq_false_of_isWordStart {c : Char} (h : isWordStart c) : isSpace c = false := by
  refine isSpace_eq_false_of_lt ?_
  have hle := toNat_of_isWordStart h
  show 32 < c.val.toNat
  omega

theorem isWordStart_eq_false_of_isDigit {c : Char} (h : c.isDigit) : isWordStart c = false := by
  rw [Bool.eq_false_iff]
  intro hstart
  have hle := (toNat_of_isDigit h).2
  have hge := toNat_of_isWordStart hstart
  omega

/-- The digits of a number in lower case, without leading zeros. -/
def hex (n : Nat) : String := String.ofList (Nat.toDigits 16 n)

/-- A character as it is shown inside quotes: printable ASCII stands for itself, quotes and the
backslash behind a backslash, all else by a letter or its code point. -/
def escaped (c : Char) : String :=
  match c with
  | '\t' => "\\t"
  | '\r' => "\\r"
  | '\n' => "\\n"
  | '\x27' => "\\'"
  | '\x22' => "\\\""
  | '\x5c' => "\\\\"
  | c => if ' ' ≤ c && c ≤ '~' then c.toString else "\\u\x7b" ++ hex c.toNat ++ "\x7d"

end CDeclarations.Text
