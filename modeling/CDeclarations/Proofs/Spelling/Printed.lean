import CDeclarations.Proofs.LongestMatch.EndOfInput
import CDeclarations.Proofs.Reading.Readable
import CDeclarations.Proofs.Reading.UpToEnd
import Mathlib.Data.List.Basic

namespace CDeclarations

open LongestMatch

/-- White space and comments that nothing behind them can be part of: block comments are closed and
line comments end with their line. -/
inductive IsClosedGap : List UInt8 → Prop
  | nothing : IsClosedGap []
  | space {b : UInt8} {s : List UInt8} (hspace : Text.isSpace (Char.ofUInt8 b))
      (later : IsClosedGap s) : IsClosedGap (b :: s)
  | line {body s : List UInt8} (hbody : '\n'.toUInt8 ∉ body) (later : IsClosedGap s) :
      IsClosedGap ('/'.toUInt8 :: '/'.toUInt8 :: (body ++ '\n'.toUInt8 :: s))
  | block {body s : List UInt8} (hbody : ¬ ['*'.toUInt8, '/'.toUInt8] <:+: body)
      (later : IsClosedGap s) :
      IsClosedGap ('/'.toUInt8 :: '*'.toUInt8 :: (body ++ '*'.toUInt8 :: '/'.toUInt8 :: s))

/-- What keeps two tokens apart begins with white space, so that no slash in front of it opens a
comment. -/
def IsSeparator (s : List UInt8) : Prop :=
  IsClosedGap s ∧ ∃ b ∈ s.head?, Text.isSpace (Char.ofUInt8 b)

/-- The tokens as they are written, with a separator behind each but the last. -/
def joined (separators : List (List UInt8)) : List Token → List UInt8
  | [] => []
  | t :: tokens =>
    Text.utf8 t.spelling ++
      (separators.zipWith (fun separator u => separator ++ Text.utf8 u.spelling) tokens).flatten

theorem IsClosedGap.gapThen {s : List UInt8} (h : IsClosedGap s) (rest : List UInt8) :
    GapThen (s ++ rest) rest := by
  induction h with
  | nothing => exact .nothing rest
  | space hspace _ ih => exact .space hspace ih
  | line hbody _ ih =>
    have hline := GapThen.line hbody ih
    simpa using hline
  | block hbody _ ih =>
    have hblock := GapThen.block hbody ih
    simpa using hblock

section Bytes

variable {word : String}

theorem IsWord.isWordByte (h : IsWord word) : ∀ b ∈ Text.utf8 word, isWordByte b := by
  intro b hb
  have hmem : Char.ofUInt8 b ∈ word.toList := h.isAscii.map_utf8 ▸ List.mem_map_of_mem hb
  exact h _ hmem

theorem IsWord.exists_utf8_cons (h : IsWord word) {first : Char} {later : List Char}
    (hword : word.toList = first :: later) :
    ∃ b more, Text.utf8 word = b :: more ∧ Char.ofUInt8 b = first := by
  rw [← h.isAscii.map_utf8] at hword
  obtain ⟨b, more, htext, hfirst, -⟩ := List.map_eq_cons_iff.mp hword
  exact ⟨b, more, htext, hfirst⟩

theorem IsName.exists_utf8_cons (h : IsName word) :
    ∃ b more, Text.utf8 word = b :: more ∧ Text.isWordStart (Char.ofUInt8 b) := by
  obtain ⟨first, later, hword, hstart, -⟩ := h.2
  obtain ⟨b, more, htext, rfl⟩ := h.isWord.exists_utf8_cons hword
  exact ⟨b, more, htext, hstart⟩

theorem IsLiteral.exists_utf8_cons (h : IsLiteral word) :
    ∃ b more, Text.utf8 word = b :: more ∧ (Char.ofUInt8 b).isDigit := by
  obtain ⟨first, later, hword, hdigit⟩ : ∃ first later, word.toList = first :: later ∧
      first.isDigit := by
    rcases h.2 with ⟨hne, hdigits⟩ | ⟨x, hex, hword, -, -⟩
    · obtain ⟨first, later, hword⟩ := List.exists_cons_of_ne_nil hne
      exact ⟨first, later, hword, hdigits first (hword ▸ List.mem_cons_self)⟩
    · exact ⟨'0', x :: hex, hword, by decide⟩
  obtain ⟨b, more, htext, rfl⟩ := h.isWord.exists_utf8_cons hword
  exact ⟨b, more, htext, hdigit⟩

end Bytes

section Front

variable {behind : List UInt8} {word literal : String}

/-- Nothing stands behind a token, or white space does. -/
def IsApart (behind : List UInt8) : Prop := ∀ b ∈ behind.head?, Text.isSpace (Char.ofUInt8 b)

/-- A run of bytes that words are made of ends where the next token is kept apart. -/
theorem takeWhile_isApart {p : UInt8 → Bool} (hp : ∀ b, p b → isWordByte b) {run : List UInt8}
    (hrun : ∀ b ∈ run, p b) (h : IsApart behind) : (run ++ behind).takeWhile p = run := by
  have hbehind : behind.takeWhile p = [] := by
    cases behind with
    | nil => rfl
    | cons b more =>
      refine List.takeWhile_cons_of_neg fun hb => ?_
      have hword := hp b hb
      rw [isWordByte_eq_false_of_isSpace (h b rfl)] at hword
      cases hword
  rw [List.takeWhile_append_of_pos hrun, hbehind, List.append_nil]

theorem item_utf8 (hword : IsWord word) (hlength : word.utf8ByteSize ≤ maxTokenLength)
    (behind : List UInt8) :
    item (Text.utf8 word) (Text.utf8 word ++ behind) = (.ok word, behind) := by
  have hfits : (Text.utf8 word).length ≤ maxTokenLength := by rwa [Text.length_utf8]
  rw [item_append hfits, Text.ofBytes, hword.isAscii.map_utf8, String.ofList_toList]

theorem item_name (h : IsName word) (hapart : IsApart behind) :
    item (wordRun (Text.utf8 word ++ behind)) (Text.utf8 word ++ behind) = (.ok word, behind) := by
  have hrun : wordRun (Text.utf8 word ++ behind) = Text.utf8 word :=
    takeWhile_isApart (fun _ hb => hb) h.isWord.isWordByte hapart
  rw [hrun]
  exact item_utf8 h.isWord h.1 behind

theorem numberRun_of_digits {run : List UInt8} (hrun : ∀ b ∈ run, isDigitByte b)
    (hapart : IsApart behind) : numberRun (run ++ behind) = run := by
  rw [numberRun_digits]
  · exact takeWhile_isApart (fun b => Text.isWordChar_of_isDigit) hrun hapart
  · intro x more htext hx
    -- What stands second is a digit or white space, neither of which is an `x`.
    match run, hrun, htext with
    | [], hrun, htext =>
      have hbehind : behind = '0'.toUInt8 :: x :: more := htext
      have hspace := hapart '0'.toUInt8 (by rw [hbehind]; rfl)
      exact absurd hspace (by decide)
    | [_], hrun, htext =>
      have hbehind : behind = x :: more := (List.cons.inj htext).2
      have hspace := hapart x (by rw [hbehind]; rfl)
      rcases hx with rfl | rfl <;> exact absurd hspace (by decide)
    | _ :: second :: _, hrun, htext =>
      obtain rfl : second = x := (List.cons.inj (List.cons.inj htext).2).1
      have hdigit := hrun second (by simp)
      rcases hx with rfl | rfl <;> exact absurd hdigit (by decide)

theorem numberRun_of_hex {x : UInt8} (hx : x = 'x'.toUInt8 ∨ x = 'X'.toUInt8) {run : List UInt8}
    (hrun : ∀ b ∈ run, isHexByte b) (hapart : IsApart behind) :
    numberRun ('0'.toUInt8 :: x :: run ++ behind) = '0'.toUInt8 :: x :: run := by
  have htake : (run ++ behind).takeWhile isHexByte = run :=
    takeWhile_isApart (fun b => Text.isWordChar_of_isHexDigit) hrun hapart
  rw [List.cons_append, List.cons_append, numberRun, if_pos ⟨rfl, hx⟩, htake]

theorem numberRun_of_isLiteralChars {run : List UInt8}
    (h : IsLiteralChars (run.map Char.ofUInt8)) (hapart : IsApart behind) :
    numberRun (run ++ behind) = run := by
  rcases h with ⟨-, hdigits⟩ | ⟨x, hex, hrun, hx, hhex⟩
  · exact numberRun_of_digits (fun b hb => hdigits _ (List.mem_map_of_mem hb)) hapart
  · obtain ⟨zero, later, rfl, hzero, hlater⟩ := List.map_eq_cons_iff.mp hrun
    obtain ⟨second, more, rfl, rfl, rfl⟩ := List.map_eq_cons_iff.mp hlater
    obtain rfl : zero = '0'.toUInt8 := (ofUInt8_eq_iff (by decide)).mp hzero
    have hsecond : second = 'x'.toUInt8 ∨ second = 'X'.toUInt8 :=
      hx.imp (ofUInt8_eq_iff (by decide)).mp (ofUInt8_eq_iff (by decide)).mp
    exact numberRun_of_hex hsecond (fun b hb => hhex _ (List.mem_map_of_mem hb)) hapart

theorem item_literal (h : IsLiteral literal) (hapart : IsApart behind) :
    item (numberRun (Text.utf8 literal ++ behind)) (Text.utf8 literal ++ behind) =
      (.ok literal, behind) := by
  have hchars : IsLiteralChars ((Text.utf8 literal).map Char.ofUInt8) := by
    rw [h.isWord.isAscii.map_utf8]
    exact h.2
  rw [numberRun_of_isLiteralChars hchars hapart]
  exact item_utf8 h.isWord h.1 behind

theorem dropGap_name (h : IsName word) (behind : List UInt8) :
    dropGap (Text.utf8 word ++ behind) = Text.utf8 word ++ behind := by
  obtain ⟨b, more, htext, hstart⟩ := h.exists_utf8_cons
  rw [htext, List.cons_append, dropGap_of_isWordStart hstart]

theorem token_name (h : IsName word) (hapart : IsApart behind) :
    token (Text.utf8 word ++ behind) = ofWord word behind := by
  have hitem := item_name h hapart
  have hgap := dropGap_name h behind
  obtain ⟨b, more, htext, hstart⟩ := h.exists_utf8_cons
  rw [htext, List.cons_append] at hitem hgap ⊢
  rw [token_of_isWordStart hgap hstart, hitem]
  rfl

theorem tagName_name {b : UInt8} (hspace : Text.isSpace (Char.ofUInt8 b)) (h : IsName word)
    (hapart : IsApart behind) : tagName (b :: (Text.utf8 word ++ behind)) = (.ok word, behind) := by
  have hitem := item_name h hapart
  have hgap := dropGap_name h behind
  obtain ⟨first, more, htext, hstart⟩ := h.exists_utf8_cons
  rw [htext, List.cons_append] at hitem hgap ⊢
  have hopen := not_opensComment (ne_slash_of_isWordStart hstart) (more ++ behind)
  rw [tagName, dropGap_space hspace, hgap]
  dsimp only
  rw [if_neg hopen, if_pos hstart, hitem]

theorem token_literal (h : IsLiteral literal) (hapart : IsApart behind) :
    token (Text.utf8 literal ++ behind) = (.ok (.number literal), behind) := by
  have hitem := item_literal h hapart
  obtain ⟨b, more, htext, hdigit⟩ := h.exists_utf8_cons
  rw [htext, List.cons_append] at hitem ⊢
  have hslash : b ≠ '/'.toUInt8 := ne_slash_of_isDigit hdigit
  have hopen := not_opensComment hslash (more ++ behind)
  have hspace : ¬ Text.isSpace (Char.ofUInt8 b) := by
    simp [Text.isSpace_eq_false_of_isDigit hdigit]
  have hstart : ¬ Text.isWordStart (Char.ofUInt8 b) := by
    simp [Text.isWordStart_eq_false_of_isDigit hdigit]
  rw [token, dropGap_of_ne_slash hspace hslash]
  dsimp only
  rw [if_neg hopen, if_neg hstart, if_pos hdigit, hitem]
  rfl

theorem ne_of_isApart (hapart : IsApart behind) {c : Char}
    (hc : ¬ Text.isSpace (Char.ofUInt8 c.toUInt8)) : behind.head? ≠ some c.toUInt8 := by
  intro hhead
  exact hc (hapart _ hhead)

/-- No comment begins with a byte in front of white space. -/
theorem behindComment?_isApart (hapart : IsApart behind) (b : UInt8) :
    behindComment? (b :: behind) = none := by
  cases behind with
  | nil => rfl
  | cons c more =>
    have hstar : c ≠ '*'.toUInt8 := fun hc => ne_of_isApart hapart (by decide) (congrArg some hc)
    have hslash : c ≠ '/'.toUInt8 := fun hc => ne_of_isApart hapart (by decide) (congrArg some hc)
    simp [behindComment?, hstar, hslash]

theorem token_symbol (mark : Punctuation) (hapart : IsApart behind) :
    token (Text.utf8 mark.symbol.toString ++ behind) = (.ok (.punctuation mark), behind) := by
  have htext : Text.utf8 mark.symbol.toString = [mark.symbol.toUInt8] := by cases mark <;> rfl
  have hspace : ¬ Text.isSpace (Char.ofUInt8 mark.symbol.toUInt8) := by cases mark <;> decide
  have hstart : ¬ Text.isWordStart (Char.ofUInt8 mark.symbol.toUInt8) := by cases mark <;> decide
  have hdigit : ¬ (Char.ofUInt8 mark.symbol.toUInt8).isDigit := by cases mark <;> decide
  have hmark : Punctuation.ofSymbol? (Char.ofUInt8 mark.symbol.toUInt8) = some mark := by
    cases mark <;> decide
  have hopen : ¬ opensComment (mark.symbol.toUInt8 :: behind) := fun hopen =>
    ne_of_isApart hapart (by decide) (opensComment_cons_iff.mp hopen).2
  rw [htext, List.singleton_append, token,
    dropGap_other hspace (behindComment?_isApart hapart mark.symbol.toUInt8)]
  dsimp only
  rw [if_neg hopen, if_neg hstart, if_neg hdigit, hmark]

theorem token_tagged (kind : TagKind) {name : String} (h : IsName name) (hapart : IsApart behind) :
    token (Text.utf8 (kind.spelling ++ " " ++ name) ++ behind) =
      (.ok (.type (.tagged kind name)), behind) := by
  have hblank : Text.isSpace (Char.ofUInt8 ' '.toUInt8) := by decide
  have hapart' : IsApart (' '.toUInt8 :: (Text.utf8 name ++ behind)) := by
    intro b hb
    rw [← Option.some.inj hb]
    exact hblank
  have htext : Text.utf8 (kind.spelling ++ " " ++ name) ++ behind =
      Text.utf8 (Keyword.tagged kind).spelling ++ ' '.toUInt8 :: (Text.utf8 name ++ behind) := by
    rw [Text.utf8_append, Text.utf8_append, List.append_assoc, List.append_assoc]
    rfl
  rw [htext, token_name (Keyword.isName_spelling _) hapart', ofWord, Keyword.ofSpelling?_spelling]
  dsimp only
  rw [tagName_name hblank h hapart]
  rfl

/-- A token that is kept apart from what stands behind it is read as it was written. -/
theorem token_spelling {t : Token} (h : t.IsReadable) (hapart : IsApart behind) :
    token (Text.utf8 t.spelling ++ behind) = (.ok t, behind) := by
  have hkeyword : ∀ k : Keyword, token (Text.utf8 k.spelling ++ behind) = ofWord k.spelling behind :=
    fun k => token_name k.isName_spelling hapart
  cases t with
  | punctuation mark => exact token_symbol mark hapart
  | qualifier word =>
    exact (hkeyword (.qualifier word)).trans
      (by rw [ofWord, Keyword.ofSpelling?_spelling])
  | sign word =>
    exact (hkeyword (.sign word)).trans
      (by rw [ofWord, Keyword.ofSpelling?_spelling])
  | type specifier =>
    cases specifier with
    | basic word =>
      exact (hkeyword (.basic word)).trans
        (by rw [ofWord, Keyword.ofSpelling?_spelling])
    | tagged kind name => exact token_tagged kind h hapart
  | number literal => exact token_literal h hapart
  | identifier name =>
    obtain ⟨hname, hfree⟩ := h
    rw [Token.spelling, token_name hname hapart, ofWord, Keyword.ofSpelling?_eq_none_iff.mpr hfree]

end Front

theorem token_of_gapThen {s rest : List UInt8} (h : GapThen s rest) : token s = token rest := by
  unfold token
  rw [dropGap_of_gapThen h]

theorem IsSeparator.isApart {separator : List UInt8} (h : IsSeparator separator)
    (behind : List UInt8) : IsApart (separator ++ behind) := by
  obtain ⟨-, first, hfirst, hspace⟩ := h
  intro b hb
  rw [List.head?_append, Option.mem_def.mp hfirst] at hb
  rw [← Option.some.inj hb]
  exact hspace

/-- Behind the first of the tokens stands a gap, and behind that the others. -/
theorem exists_joined_cons {separators : List (List UInt8)}
    (hseparators : ∀ separator ∈ separators, IsSeparator separator) (t : Token)
    {tokens : List Token} (hlength : tokens.length ≤ separators.length) :
    ∃ later, joined separators (t :: tokens) = Text.utf8 t.spelling ++ later ∧ IsApart later ∧
      GapThen later (joined separators.tail tokens) := by
  cases tokens with
  | nil =>
    refine ⟨[], by simp [joined], fun b hb => ?_, .nothing []⟩
    cases hb
  | cons u tokens =>
    obtain ⟨separator, more, rfl⟩ := List.exists_cons_of_length_pos (Nat.zero_lt_of_lt hlength)
    have hfirst : IsSeparator separator := hseparators separator List.mem_cons_self
    refine ⟨separator ++ joined more (u :: tokens), ?_, hfirst.isApart _, hfirst.1.gapThen _⟩
    simp [joined]

/-- Behind any gap, tokens that are kept apart are read one after another. -/
theorem readTokens_of_gapThen_joined {tokens : List Token} {separators : List (List UInt8)}
    (htokens : ∀ t ∈ tokens, t.IsReadable)
    (hseparators : ∀ separator ∈ separators, IsSeparator separator)
    (hlength : tokens.length ≤ separators.length + 1) {bytes : List UInt8} {s : ByteStream}
    (hs : s.events = bytes.map .byte) (hgap : GapThen bytes (joined separators tokens)) :
    (readTokens s).1 = tokens.map .ok := by
  -- Each token leaves the gap behind it, so the gap in front stays in the statement.
  induction tokens generalizing separators bytes s with
  | nil => exact readTokens_of_isGap hs hgap
  | cons t tokens ih =>
    have hroom : tokens.length ≤ separators.length := Nat.le_of_succ_le_succ hlength
    obtain ⟨later, hjoined, hapart, hlater⟩ := exists_joined_cons hseparators t hroom
    have hread : token bytes = (.ok t, later) := by
      rw [token_of_gapThen hgap, hjoined]
      exact token_spelling (htokens t List.mem_cons_self) hapart
    obtain ⟨rest, hrest, hall⟩ := readTokens_of_token hs hread (by simp)
    have hmore : tokens.length ≤ separators.tail.length + 1 := by
      rw [List.length_tail]
      omega
    have htail := ih (fun u hu => htokens u (List.mem_cons_of_mem t hu))
      (fun separator h => hseparators separator (List.mem_of_mem_tail h)) hmore hrest hlater
    rw [hall, htail, List.map_cons]

/-- Tokens that are written with white space and comments between them are read as they are, and
only what can be written so is ever read. -/
theorem readTokens_joined :
    (∀ (tokens : List Token) (separators : List (List UInt8)),
      (∀ t ∈ tokens, t.IsReadable) → (∀ separator ∈ separators, IsSeparator separator) →
      tokens.length ≤ separators.length + 1 →
      (readTokens (.ofBytes (joined separators tokens))).1 = tokens.map .ok ∧
        UpToEnd (.ofBytes (joined separators tokens)) (tokens.map .ok)) ∧
    ∀ (s rest : ByteStream) (t : Token), nextToken s = (.ok t, rest) → t.IsReadable := by
  refine ⟨fun tokens separators htokens hseparators hlength => ?_, fun s rest t h =>
    isReadable_of_nextToken h⟩
  have hread := readTokens_of_gapThen_joined htokens hseparators hlength
    (ByteStream.events_ofBytes (joined separators tokens)) (.nothing _)
  refine ⟨hread, ?_⟩
  rw [← hread]
  exact upToEnd_readTokens _

theorem readTokens_joined_keywordTag :
    (readTokens (.ofBytes (joined [Text.utf8 " /**/", Text.utf8 "\t//;\n"]
        [.type (.tagged .struct "const"), .number "0x", .punctuation .slash]))).1 =
      [.ok (.type (.tagged .struct "const")), .ok (.number "0x"), .ok (.punctuation .slash)] ∧
    Token.IsReadable (.type (.tagged .struct "const")) := by
  have hname : IsName "const" := Keyword.isName_spelling (.qualifier .const)
  have hliteral : IsLiteral "0x" := ⟨by decide, .inr ⟨'x', [], rfl, .inl rfl, by simp⟩⟩
  have hblock : IsSeparator (Text.utf8 " /**/") :=
    ⟨.space (by decide) (@IsClosedGap.block [] [] (by simp) .nothing), _, rfl, by decide⟩
  have hline : IsSeparator (Text.utf8 "\t//;\n") :=
    ⟨.space (by decide) (@IsClosedGap.line (Text.utf8 ";") [] (by decide) .nothing), _, rfl,
      by decide⟩
  refine ⟨(readTokens_joined.1 _ _ ?_ ?_ (by decide)).1, ?_⟩
  · simp [Token.IsReadable, hname, hliteral]
  · simp [hblock, hline]
  · exact readTokens_joined.2 (.ofBytes (Text.utf8 "struct\nconst")) ⟨none, []⟩ _ (by rfl)

end CDeclarations
