import CDeclarations.Proofs.LongestMatch.Item
import CDeclarations.Token.Next

namespace CDeclarations

namespace LongestMatch

/-- A block comment begins here. Where the longest gap has ended, it is one that is not closed. -/
def opensComment : List UInt8 → Bool
  | b :: c :: _ => b = '/'.toUInt8 && c = '*'.toUInt8
  | _ => false

/-- The name behind `struct` or `enum`, which may be a keyword. A byte that begins no name is left
to what follows, but for a slash, which is lost. -/
def tagName (s : List UInt8) : MemoryReading String :=
  match dropGap s with
  | [] => (.error .endOfInput, [])
  | b :: rest =>
    if opensComment (b :: rest) then (.error .unterminatedComment, [])
    else if Text.isWordStart (Char.ofUInt8 b) then item (wordRun (b :: rest)) (b :: rest)
    else (.error .notIdentifier, if b = '/'.toUInt8 then rest else b :: rest)

/-- What a word is, with the name behind it if it calls for one. -/
def ofWord (word : String) (s : List UInt8) : MemoryReading Token :=
  match Keyword.ofSpelling? word with
  | none => (.ok (.identifier word), s)
  | some (.qualifier word) => (.ok (.qualifier word), s)
  | some (.sign word) => (.ok (.sign word), s)
  | some (.basic word) => (.ok (.type (.basic word)), s)
  | some (.tagged kind) =>
    MemoryReading.andThen (tagName s) fun name rest => (.ok (.type (.tagged kind name)), rest)

/-- The token at the front of bytes in memory, behind the longest gap: the longest word or number,
or else a single byte. -/
def token (s : List UInt8) : MemoryReading Token :=
  match dropGap s with
  | [] => (.error .endOfInput, [])
  | b :: rest =>
    if opensComment (b :: rest) then (.error .unterminatedComment, [])
    else if Text.isWordStart (Char.ofUInt8 b) then
      MemoryReading.andThen (item (wordRun (b :: rest)) (b :: rest)) ofWord
    else if (Char.ofUInt8 b).isDigit then
      MemoryReading.andThen (item (numberRun (b :: rest)) (b :: rest)) fun literal rest =>
        (.ok (.number literal), rest)
    else
      match Punctuation.ofSymbol? (Char.ofUInt8 b) with
      | some mark => (.ok (.punctuation mark), rest)
      | none => (.error (.unknownCharacter (Char.ofUInt8 b)), rest)

theorem tagName_suffix (s : List UInt8) : (tagName s).2 <:+ s := by
  have hgap := (gapThen_dropGap s).suffix
  unfold tagName
  generalize dropGap s = left at hgap
  cases left with
  | nil => exact hgap
  | cons b rest =>
    refine List.IsSuffix.trans ?_ hgap
    dsimp only
    split
    · exact List.nil_suffix
    · split
      · exact item_suffix _ _
      · split
        · exact List.suffix_cons b rest
        · exact List.suffix_rfl

theorem ofWord_suffix (word : String) (s : List UInt8) : (ofWord word s).2 <:+ s := by
  unfold ofWord
  split <;> try exact List.suffix_rfl
  exact MemoryReading.suffix_andThen (tagName_suffix s) fun _ _ => List.suffix_rfl

theorem token_suffix (s : List UInt8) : (token s).2 <:+ s := by
  have hgap := (gapThen_dropGap s).suffix
  unfold token
  generalize dropGap s = left at hgap
  cases left with
  | nil => exact hgap
  | cons b rest =>
    refine List.IsSuffix.trans ?_ hgap
    dsimp only
    split
    · exact List.nil_suffix
    · split
      · exact MemoryReading.suffix_andThen (item_suffix _ _) ofWord_suffix
      · split
        · exact MemoryReading.suffix_andThen (item_suffix _ _) fun _ _ => List.suffix_rfl
        · split <;> exact List.suffix_cons b rest

theorem ofWord_ne_punctuation (word : String) (mark : Punctuation) {s left : List UInt8} :
    ofWord word s ≠ (.ok (.punctuation mark), left) := by
  intro h
  unfold ofWord at h
  split at h <;> try cases h
  obtain ⟨name, rest, -, hname⟩ := MemoryReading.andThen_eq_ok_iff.mp h
  cases hname

theorem token_eq_punctuation {bytes left : List UInt8} {mark : Punctuation}
    (h : token bytes = (.ok (.punctuation mark), left)) :
    dropGap bytes = mark.symbol.toUInt8 :: left := by
  unfold token at h
  cases hgap : dropGap bytes with
  | nil =>
    rw [hgap] at h
    cases h
  | cons b rest =>
    simp only [hgap] at h
    split at h
    · cases h
    · split at h
      · obtain ⟨word, behind, -, hword⟩ := MemoryReading.andThen_eq_ok_iff.mp h
        exact absurd hword (ofWord_ne_punctuation word mark)
      · split at h
        · obtain ⟨literal, behind, -, hliteral⟩ := MemoryReading.andThen_eq_ok_iff.mp h
          cases hliteral
        · split at h
          · rename_i found hfound
            cases h
            have hsymbol : mark.symbol = Char.ofUInt8 b := by simpa using List.find?_some hfound
            rw [hsymbol, toUInt8_ofUInt8]
          · cases h

end LongestMatch

open LongestMatch

section Memory

variable {s : ByteStream} {bytes : List UInt8}

theorem opensComment_cons_iff {b : UInt8} {rest : List UInt8} :
    opensComment (b :: rest) ↔ b = '/'.toUInt8 ∧ rest.head? = some '*'.toUInt8 := by
  cases rest with
  | nil => simp [opensComment]
  | cons c rest => simp [opensComment]

theorem not_opensComment {b : UInt8} (h : b ≠ '/'.toUInt8) (rest : List UInt8) :
    ¬ opensComment (b :: rest) := by
  intro hopen
  exact h (opensComment_cons_iff.mp hopen).1

/-- The byte that `skipGap` finds is the first one that the longest gap leaves. -/
theorem skipGap_of_cons {b : UInt8} {rest : List UInt8} (hs : s.events = bytes.map .byte)
    (h : dropGap bytes = b :: rest) :
    (opensComment (b :: rest) ∧ skipGap s = (.error .unterminatedComment, ⟨none, []⟩)) ∨
      (¬ opensComment (b :: rest) ∧ ∃ left, skipGap s = (.ok (some b), left) ∧
        left.events = rest.map .byte ∧ (b ≠ '/'.toUInt8 → left.held = none)) := by
  rw [opensComment_cons_iff]
  by_cases hb : b = '/'.toUInt8
  · subst hb
    by_cases hstar : rest.head? = some '*'.toUInt8
    · obtain ⟨later, rfl⟩ : ∃ later, rest = '*'.toUInt8 :: later := by
        cases rest with
        | nil => cases hstar
        | cons c later => exact ⟨later, by rw [Option.some.inj hstar]⟩
      exact .inl ⟨⟨rfl, rfl⟩, skipGap_of_openComment hs h⟩
    · obtain ⟨left, hskip, hleft⟩ := skipGap_of_slash hs h hstar
      exact .inr ⟨fun hopen => hstar hopen.2, left, hskip, hleft, fun hne => absurd rfl hne⟩
  · exact .inr ⟨fun hopen => hb hopen.1, ⟨none, rest.map .byte⟩, skipGap_of_other hs h hb, rfl,
      fun _ => rfl⟩

theorem ne_slash_of_isWordStart {b : UInt8} (h : Text.isWordStart (Char.ofUInt8 b)) :
    b ≠ '/'.toUInt8 := by
  intro h
  subst h
  exact absurd h (by decide)

theorem ne_slash_of_isDigit {b : UInt8} (h : (Char.ofUInt8 b).isDigit) : b ≠ '/'.toUInt8 := by
  intro h
  subst h
  exact absurd h (by decide)

theorem agrees_reject {b : UInt8} {left : ByteStream} {rest : List UInt8}
    (hleft : left.events = rest.map .byte) (hheld : b ≠ '/'.toUInt8 → left.held = none) :
    (reject b left).Agrees (.ok (), if b = '/'.toUInt8 then rest else b :: rest) := by
  unfold reject
  by_cases hb : b = '/'.toUInt8
  · rw [if_pos hb, if_pos hb]
    exact ⟨rfl, hleft⟩
  · rw [if_neg hb, if_neg hb, ByteStream.putBack_eq_ok (hheld hb)]
    refine ⟨rfl, ?_⟩
    obtain ⟨_ | _, unread⟩ := left
    · exact congrArg (.byte b :: ·) hleft
    · cases hheld hb

theorem agrees_readWord (hs : s.events = bytes.map .byte) : (readWord s).Agrees (tagName bytes) := by
  unfold readWord readItem tagName
  cases h : dropGap bytes with
  | nil =>
    rw [skipGap_of_gap hs h]
    exact ⟨rfl, rfl⟩
  | cons b rest =>
    rcases skipGap_of_cons hs h with ⟨hopen, hskip⟩ | ⟨hopen, left, hskip, hleft, hheld⟩
    · rw [hskip]
      simp only [hopen, if_true]
      exact ⟨rfl, rfl⟩
    · rw [hskip]
      simp only [hopen, Reading.andThen_ok, Bool.false_eq_true, if_false]
      by_cases hstart : Text.isWordStart (Char.ofUInt8 b)
      · rw [if_pos hstart, if_pos hstart]
        exact readText_word (Text.isWordChar_of_isWordStart hstart) hleft
      · rw [if_neg hstart, if_neg hstart]
        obtain ⟨hanswer, hevents⟩ := agrees_reject hleft hheld
        generalize reject b left = rejected at hanswer hevents
        obtain ⟨answer, after⟩ := rejected
        obtain rfl : answer = .ok () := hanswer
        exact ⟨rfl, hevents⟩

theorem agrees_tokenOfWord (word : String) (hs : s.events = bytes.map .byte) :
    (tokenOfWord word s).Agrees (ofWord word bytes) := by
  unfold tokenOfWord ofWord
  cases Keyword.ofSpelling? word with
  | none => exact ⟨rfl, hs⟩
  | some k =>
    cases k with
    | qualifier word => exact ⟨rfl, hs⟩
    | sign word => exact ⟨rfl, hs⟩
    | basic word => exact ⟨rfl, hs⟩
    | tagged kind =>
      exact (agrees_readWord hs).andThen fun _ _ _ hevents => ⟨rfl, hevents⟩

/-- A stream whose reads bring bytes in memory is read like these. -/
theorem agrees_nextToken (hs : s.events = bytes.map .byte) :
    (nextToken s).Agrees (LongestMatch.token bytes) := by
  unfold nextToken LongestMatch.token
  cases h : dropGap bytes with
  | nil =>
    rw [skipGap_of_gap hs h]
    exact ⟨rfl, rfl⟩
  | cons b rest =>
    rcases skipGap_of_cons hs h with ⟨hopen, hskip⟩ | ⟨hopen, left, hskip, hleft, hheld⟩
    · rw [hskip]
      simp only [hopen, if_true]
      exact ⟨rfl, rfl⟩
    · have hunread : b ≠ '/'.toUInt8 →
          (ByteStream.mk none left.unread).events = rest.map .byte := fun hb => by
        rw [← hleft, ByteStream.events, ByteStream.events, hheld hb]
      rw [hskip]
      simp only [hopen, Reading.andThen_ok, Bool.false_eq_true, if_false]
      by_cases hstart : Text.isWordStart (Char.ofUInt8 b)
      · -- The byte that told what follows has been put back, and is taken as the first of the word.
        have hword := readText_word (s := ⟨none, left.unread⟩)
          (Text.isWordChar_of_isWordStart hstart) (hunread (ne_slash_of_isWordStart hstart))
        rw [if_pos hstart, if_pos hstart,
          ByteStream.putBack_eq_ok (hheld (ne_slash_of_isWordStart hstart)), Reading.andThen_ok,
          readWord_held hstart]
        exact hword.andThen fun word _ _ hevents => agrees_tokenOfWord word hevents
      · rw [if_neg hstart, if_neg hstart]
        by_cases hdigit : (Char.ofUInt8 b).isDigit
        · have hnumber := readText_number (s := ⟨none, left.unread⟩) hdigit
            (hunread (ne_slash_of_isDigit hdigit))
          rw [if_pos hdigit, if_pos hdigit,
            ByteStream.putBack_eq_ok (hheld (ne_slash_of_isDigit hdigit)), Reading.andThen_ok,
            readNumber_held hdigit]
          exact hnumber.andThen fun _ _ _ hevents => ⟨rfl, hevents⟩
        · rw [if_neg hdigit, if_neg hdigit]
          cases Punctuation.ofSymbol? (Char.ofUInt8 b) with
          | none => exact ⟨rfl, hleft⟩
          | some mark => exact ⟨rfl, hleft⟩

theorem token_of_nextToken {next : ByteStream} {t : Token} (hs : s.events = bytes.map .byte)
    (h : nextToken s = (.ok t, next)) :
    ∃ left, LongestMatch.token bytes = (.ok t, left) ∧ next.events = left.map .byte := by
  obtain ⟨hanswer, hleft⟩ := agrees_nextToken hs
  rw [h] at hanswer hleft
  exact ⟨_, Prod.ext hanswer.symm rfl, hleft⟩

end Memory

/-- Whether or not a byte has been put back, what is read of bytes in memory is the token at their
front by longest match, and what is left are the bytes that longest match leaves. -/
theorem nextToken_longestMatch (held : Option UInt8) (bytes : List UInt8) :
    (∀ s, LongestGapThen s (dropGap s)) ∧
      (nextToken ⟨held, bytes.map .byte⟩).1 = (LongestMatch.token (held.toList ++ bytes)).1 ∧
      (nextToken ⟨held, bytes.map .byte⟩).2.events =
        (LongestMatch.token (held.toList ++ bytes)).2.map .byte := by
  have hs : (ByteStream.mk held (bytes.map .byte)).events =
      (held.toList ++ bytes).map .byte := by
    cases held <;> rfl
  exact ⟨longestGapThen_dropGap, agrees_nextToken hs⟩

end CDeclarations
