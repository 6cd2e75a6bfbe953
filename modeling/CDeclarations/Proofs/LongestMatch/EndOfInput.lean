import CDeclarations.Proofs.LongestMatch.Token

namespace CDeclarations

open LongestMatch

/-- Behind a gap there is `struct` or `enum`, and behind that nothing but a gap. -/
def DanglingTag (s : List UInt8) : Prop :=
  ∃ (kind : TagKind) (rest : List UInt8), GapThen s (Text.utf8 kind.spelling ++ rest) ∧ IsGap rest

theorem isWordByte_eq_false_of_isSpace {b : UInt8} (h : Text.isSpace (Char.ofUInt8 b)) :
    isWordByte b = false := by
  rw [isWordByte, Text.isWordChar, Char.isAlphanum, Bool.or_eq_false_iff, Bool.or_eq_false_iff]
  have hstart : ¬ Text.isWordStart (Char.ofUInt8 b) := by
    intro hword
    simp [Text.isSpace_eq_false_of_isWordStart hword] at h
  have hdigit : ¬ (Char.ofUInt8 b).isDigit := by
    intro hdigit
    simp [Text.isSpace_eq_false_of_isDigit hdigit] at h
  simp only [Text.isWordStart, Bool.or_eq_true, not_or, Bool.not_eq_true] at hstart hdigit
  exact ⟨⟨hstart.1, hdigit⟩, hstart.2⟩

theorem wordRun_of_isGap {s : List UInt8} (h : IsGap s) : wordRun s = [] := by
  cases h with
  | nothing => rfl
  | space hspace _ =>
    exact List.takeWhile_cons_of_neg (by simp [isWordByte_eq_false_of_isSpace hspace])
  | line _ _ => exact List.takeWhile_cons_of_neg (by decide)
  | lastLine _ => exact List.takeWhile_cons_of_neg (by decide)
  | block _ _ => exact List.takeWhile_cons_of_neg (by decide)

theorem eq_utf8_of_ofBytes {bytes : List UInt8} {kind : TagKind}
    (h : Text.ofBytes bytes = kind.spelling) : bytes = Text.utf8 kind.spelling := by
  have hchars : bytes.map Char.ofUInt8 = kind.spelling.toList := by
    rw [← h, Text.ofBytes, String.toList_ofList]
  have hback : (bytes.map Char.ofUInt8).map Char.toUInt8 = bytes := by
    rw [List.map_map]
    exact (List.map_congr_left fun b _ => toUInt8_ofUInt8 b).trans (List.map_id bytes)
  rw [← hback, hchars]
  cases kind <;> rfl

theorem item_ne_endOfInput (run s : List UInt8) : (item run s).1 ≠ .error .endOfInput := by
  unfold item
  split <;> simp [TokenError.tooLong]

theorem tagName_eq_endOfInput_iff {s : List UInt8} :
    (tagName s).1 = .error .endOfInput ↔ IsGap s := by
  rw [← dropGap_eq_nil_iff]
  unfold tagName
  cases dropGap s with
  | nil => simp
  | cons b rest =>
    simp only [reduceCtorEq, iff_false]
    split
    · simp [TokenError.unterminatedComment]
    · split
      · exact item_ne_endOfInput _ _
      · simp

theorem MemoryReading.andThen_eq_endOfInput_iff {α β : Type} {first : MemoryReading α}
    {second : α → List UInt8 → MemoryReading β} (hfirst : first.1 ≠ .error .endOfInput) :
    (first.andThen second).1 = .error .endOfInput ↔
      ∃ a rest, first = (.ok a, rest) ∧ (second a rest).1 = .error .endOfInput := by
  obtain ⟨e | a, rest⟩ := first
  · constructor
    · intro h
      exact absurd (congrArg Except.error (Except.error.inj h)) hfirst
    · intro h
      obtain ⟨a, rest', h, -⟩ := h
      cases h
  · constructor
    · intro h
      exact ⟨a, rest, rfl, h⟩
    · intro h
      obtain ⟨a', rest', h, hsecond⟩ := h
      cases h
      exact hsecond

/-- A word brings the end of the input when it is a tag without a name. -/
theorem ofWord_eq_endOfInput_iff {word : String} {s : List UInt8} :
    (ofWord word s).1 = .error .endOfInput ↔ ∃ kind : TagKind, kind.spelling = word ∧ IsGap s := by
  rw [← tagName_eq_endOfInput_iff]
  constructor
  · intro h
    unfold ofWord at h
    split at h
    case h_5 kind hkeyword =>
      refine ⟨kind, Keyword.ofSpelling?_eq_some_iff.mp hkeyword, ?_⟩
      generalize tagName s = name at h ⊢
      obtain ⟨e | _, rest⟩ := name
      · exact congrArg Except.error (Except.error.inj h)
      · cases h
    all_goals cases h
  · intro h
    obtain ⟨kind, rfl, hname⟩ := h
    have hkeyword : Keyword.ofSpelling? kind.spelling = some (.tagged kind) :=
      Keyword.ofSpelling?_spelling (.tagged kind)
    unfold ofWord
    rw [hkeyword]
    generalize tagName s = name at hname ⊢
    obtain ⟨e | _, rest⟩ := name
    · exact congrArg Except.error (Except.error.inj hname)
    · cases hname

theorem item_tag (kind : TagKind) {rest : List UInt8} (h : IsGap rest) :
    item (wordRun (Text.utf8 kind.spelling ++ rest)) (Text.utf8 kind.spelling ++ rest) =
      (.ok kind.spelling, rest) := by
  have hrest : rest.takeWhile isWordByte = [] := wordRun_of_isGap h
  have hword : (Text.utf8 kind.spelling).all isWordByte := by cases kind <;> decide
  have hlength : (Text.utf8 kind.spelling).length ≤ maxTokenLength := by cases kind <;> decide
  have hrun : wordRun (Text.utf8 kind.spelling ++ rest) = Text.utf8 kind.spelling := by
    rw [wordRun, List.takeWhile_append_of_pos (List.all_eq_true.mp hword), hrest, List.append_nil]
  rw [hrun, item_append hlength]
  cases kind <;> rfl

theorem dropGap_of_ne_slash {b : UInt8} (hspace : ¬ Text.isSpace (Char.ofUInt8 b))
    (hslash : b ≠ '/'.toUInt8) (s : List UInt8) : dropGap (b :: s) = b :: s := by
  apply dropGap_other hspace
  cases s with
  | nil => rfl
  | cons c s => exact if_pos hslash

theorem dropGap_of_isWordStart {b : UInt8} (h : Text.isWordStart (Char.ofUInt8 b))
    (s : List UInt8) : dropGap (b :: s) = b :: s := by
  have hspace : ¬ Text.isSpace (Char.ofUInt8 b) := by
    simp [Text.isSpace_eq_false_of_isWordStart h]
  exact dropGap_of_ne_slash hspace (ne_slash_of_isWordStart h) s

theorem token_of_isWordStart {s rest : List UInt8} {b : UInt8} (h : dropGap s = b :: rest)
    (hstart : Text.isWordStart (Char.ofUInt8 b)) :
    token s = (item (wordRun (b :: rest)) (b :: rest)).andThen ofWord := by
  unfold token
  rw [h]
  dsimp only
  rw [if_neg (not_opensComment (ne_slash_of_isWordStart hstart) rest), if_pos hstart]

theorem exists_isWordStart (kind : TagKind) :
    ∃ b more, Text.utf8 kind.spelling = b :: more ∧ Text.isWordStart (Char.ofUInt8 b) := by
  cases kind <;> exact ⟨_, _, rfl, by decide⟩

theorem DanglingTag.not_isGap {s : List UInt8} (h : DanglingTag s) : ¬ IsGap s := by
  obtain ⟨kind, rest, hgap, -⟩ := h
  obtain ⟨b, more, hspelling, hstart⟩ := exists_isWordStart kind
  rw [hspelling, List.cons_append] at hgap
  rw [← dropGap_eq_nil_iff, dropGap_of_gapThen hgap, dropGap_of_isWordStart hstart]
  simp

theorem number_ne_endOfInput (run s : List UInt8) :
    (MemoryReading.andThen (item run s) fun literal rest =>
      (.ok (Token.number literal), rest)).1 ≠ .error .endOfInput := by
  rw [Ne, MemoryReading.andThen_eq_endOfInput_iff (item_ne_endOfInput run s)]
  intro h
  obtain ⟨literal, rest, -, h⟩ := h
  cases h

/-- No token is left where there is only a gap, or a tag that has no name. -/
theorem token_eq_endOfInput_iff {s : List UInt8} :
    (token s).1 = .error .endOfInput ↔ IsGap s ∨ DanglingTag s := by
  constructor
  · intro h
    have hgap := gapThen_dropGap s
    unfold token at h
    generalize dropGap s = left at hgap h
    cases left with
    | nil => exact .inl hgap
    | cons b rest =>
      right
      dsimp only at h
      split at h
      · cases h
      · split at h
        · obtain ⟨word, behind, hitem, hword⟩ :=
            (MemoryReading.andThen_eq_endOfInput_iff (item_ne_endOfInput _ _)).mp h
          obtain ⟨kind, hspelling, hbehind⟩ := ofWord_eq_endOfInput_iff.mp hword
          -- The bytes of the word can be told from its text, since the text is that of a tag.
          obtain ⟨heq, htext⟩ := of_item_wordRun_eq_ok hitem
          rw [eq_utf8_of_ofBytes (htext.symm.trans hspelling.symm)] at heq
          exact ⟨kind, behind, heq ▸ hgap, hbehind⟩
        · split at h
          · exact absurd h (number_ne_endOfInput _ _)
          · split at h <;> cases h
  · intro h
    rcases h with hgap | ⟨kind, rest, hgap, hrest⟩
    · unfold token
      rw [dropGap_eq_nil_iff.mpr hgap]
    · have hword := ofWord_eq_endOfInput_iff.mpr ⟨kind, rfl, hrest⟩
      have hitem := item_tag kind hrest
      obtain ⟨b, more, hspelling, hstart⟩ := exists_isWordStart kind
      rw [hspelling, List.cons_append] at hitem hgap
      have hfront := (dropGap_of_gapThen hgap).trans (dropGap_of_isWordStart hstart (more ++ rest))
      rw [token_of_isWordStart hfront hstart, hitem]
      exact hword

section Left

variable {s left : List UInt8}

theorem left_of_tagName_end (h : tagName s = (.error .endOfInput, left)) : left = [] := by
  unfold tagName at h
  cases hgap : dropGap s with
  | nil =>
    rw [hgap] at h
    cases h
    rfl
  | cons b rest =>
    simp only [hgap] at h
    split at h
    · cases h
    · split at h
      · exact absurd (congrArg Prod.fst h) (item_ne_endOfInput _ _)
      · cases h

theorem left_of_ofWord_end {word : String} (h : ofWord word s = (.error .endOfInput, left)) :
    left = [] := by
  unfold ofWord at h
  split at h
  case h_5 kind hkeyword =>
    cases hname : tagName s with
    | mk answer rest =>
      rw [hname] at h
      cases answer with
      | ok name => cases h
      | error e =>
        cases h
        exact left_of_tagName_end hname
  all_goals cases h

/-- The end of the input is found where it is. -/
theorem left_of_token_end (h : token s = (.error .endOfInput, left)) : left = [] := by
  unfold token at h
  cases hgap : dropGap s with
  | nil =>
    rw [hgap] at h
    cases h
    rfl
  | cons b rest =>
    simp only [hgap] at h
    split at h
    · cases h
    · split at h
      · cases hitem : item (wordRun (b :: rest)) (b :: rest) with
        | mk answer behind =>
          rw [hitem] at h
          cases answer with
          | ok word => exact left_of_ofWord_end h
          | error e =>
            cases h
            exact absurd (congrArg Prod.fst hitem) (item_ne_endOfInput _ _)
      · split at h
        · exact absurd (congrArg Prod.fst h) (number_ne_endOfInput _ _)
        · split at h <;> cases h

end Left

end CDeclarations
