import CDeclarations.Token.Gap
import CDeclarations.Token.Keyword
import CDeclarations.Token.Run

namespace CDeclarations

def Punctuation.all : List Punctuation :=
  [.leftParen, .rightParen, .leftBracket, .rightBracket, .comma, .slash, .asterisk, .semicolon]

def Punctuation.ofSymbol? (c : Char) : Option Punctuation :=
  Punctuation.all.find? (·.symbol = c)

/-- Leaves a byte that cannot begin what is looked for to the next reading. A slash cannot be
put back, the byte read behind it already is, and so it is dropped. -/
def reject (b : UInt8) (s : ByteStream) : Reading Unit :=
  if b = '/'.toUInt8 then (.ok (), s) else s.putBack b

/-- Reads a text whose first byte passes the test, behind white space and comments. -/
def readItem (starts : Char → Bool) (goesOn : List UInt8 → UInt8 → Bool) (otherwise : TokenError)
    (s : ByteStream) : Reading String :=
  (skipGap s).andThen fun
    | none, rest => (.error .endOfInput, rest)
    | some b, rest =>
      if starts (Char.ofUInt8 b) then readText goesOn b rest
      else (reject b rest).andThen fun _ rest => (.error otherwise, rest)

def readWord (s : ByteStream) : Reading String :=
  readItem Text.isWordStart wordGoesOn .notIdentifier s

def readNumber (s : ByteStream) : Reading String :=
  readItem Char.isDigit numberGoesOn .notNumber s

/-- The token that a word makes. `struct` and `enum` take the next word as a name, even if it
is a keyword. -/
def tokenOfWord (word : String) (s : ByteStream) : Reading Token :=
  match Keyword.ofSpelling? word with
  | none => (.ok (.identifier word), s)
  | some (.qualifier word) => (.ok (.qualifier word), s)
  | some (.sign word) => (.ok (.sign word), s)
  | some (.basic word) => (.ok (.type (.basic word)), s)
  | some (.tagged kind) =>
    (readWord s).andThen fun name rest => (.ok (.type (.tagged kind name)), rest)

/-- Reads one token. Its first byte tells what it is, and is put back where a longer text
begins with it. -/
def nextToken (s : ByteStream) : Reading Token :=
  (skipGap s).andThen fun
    | none, rest => (.error .endOfInput, rest)
    | some b, rest =>
      let c := Char.ofUInt8 b
      if Text.isWordStart c then
        ((rest.putBack b).andThen fun _ rest => readWord rest).andThen tokenOfWord
      else if c.isDigit then
        ((rest.putBack b).andThen fun _ rest => readNumber rest).andThen fun literal rest =>
          (.ok (.number literal), rest)
      else
        match Punctuation.ofSymbol? c with
        | some mark => (.ok (.punctuation mark), rest)
        | none => (.error (.unknownCharacter c), rest)

theorem size_reject_le (b : UInt8) (s : ByteStream) : (reject b s).2.size ≤ s.size + 1 := by
  unfold reject
  split
  · simp
  · exact s.size_putBack_le b

theorem size_readText_le (goesOn : List UInt8 → UInt8 → Bool) (first : UInt8) (s : ByteStream) :
    (readText goesOn first s).2.size ≤ s.size :=
  (readText_events_suffix goesOn first s).length_le

theorem size_readItem_le (starts : Char → Bool) (goesOn : List UInt8 → UInt8 → Bool)
    (otherwise : TokenError) (s : ByteStream) :
    (readItem starts goesOn otherwise s).2.size ≤ s.size := by
  have hle := skipGap_size_le s
  have hlt := skipGap_size_lt (s := s)
  unfold readItem
  generalize skipGap s = gap at hle hlt
  obtain ⟨_ | _ | b, rest⟩ := gap
  · exact hle
  · exact hle
  · have hlt := hlt (by simp)
    simp only [Reading.andThen_ok]
    split
    · exact Nat.le_trans (size_readText_le goesOn b rest) hle
    · have hreject := size_reject_le b rest
      generalize reject b rest = rejected at hreject
      obtain ⟨_ | _, after⟩ := rejected <;> simp_all <;> omega

theorem size_readWord_le (s : ByteStream) : (readWord s).2.size ≤ s.size :=
  size_readItem_le _ _ _ s

theorem size_tokenOfWord_le (word : String) (s : ByteStream) :
    (tokenOfWord word s).2.size ≤ s.size := by
  unfold tokenOfWord
  split
  · simp
  · simp
  · simp
  · simp
  · have hle := size_readWord_le s
    generalize readWord s = name at hle
    obtain ⟨_ | _, rest⟩ := name <;> exact hle

/-- The byte that tells that a word follows is the word's first one when it has been put back. -/
theorem readWord_held {b : UInt8} (h : Text.isWordStart (Char.ofUInt8 b))
    (unread : List ReadEvent) :
    readWord ⟨some b, unread⟩ = readText wordGoesOn b ⟨none, unread⟩ := by
  have hslash : b ≠ '/'.toUInt8 := by
    rintro rfl
    exact absurd h (by decide)
  simp [readWord, readItem, skipGap_held (Text.isSpace_eq_false_of_isWordStart h) hslash, h]

theorem readNumber_held {b : UInt8} (h : (Char.ofUInt8 b).isDigit) (unread : List ReadEvent) :
    readNumber ⟨some b, unread⟩ = readText numberGoesOn b ⟨none, unread⟩ := by
  have hslash : b ≠ '/'.toUInt8 := by
    rintro rfl
    exact absurd h (by decide)
  simp [readNumber, readItem, skipGap_held (Text.isSpace_eq_false_of_isDigit h) hslash, h]

/-- Putting a byte back and reading the text that begins with it takes no more than the byte was
worth. -/
theorem size_putBack_andThen_le {α : Type} {b : UInt8} {read : ByteStream → Reading α}
    (hread : ∀ unread, (read ⟨some b, unread⟩).2.size ≤ unread.length) (s : ByteStream) :
    ((s.putBack b).andThen fun _ rest => read rest).2.size ≤ s.size := by
  obtain ⟨_ | held, unread⟩ := s
  · exact hread unread
  · exact Nat.le_refl _

theorem size_andThen_le {α β : Type} {first : Reading α} {second : α → ByteStream → Reading β}
    (h : ∀ a rest, (second a rest).2.size ≤ rest.size) :
    (first.andThen second).2.size ≤ first.2.size := by
  obtain ⟨_ | a, rest⟩ := first
  · exact Nat.le_refl _
  · exact h a rest

/-- Whatever comes of a reading, unless it is the end of the input, something was used up. -/
theorem nextToken_size_lt {s : ByteStream} (h : (nextToken s).1 ≠ .error .endOfInput) :
    (nextToken s).2.size < s.size := by
  have hlt := skipGap_size_lt (s := s)
  unfold nextToken at h ⊢
  generalize skipGap s = gap at hlt h
  obtain ⟨_ | _ | b, rest⟩ := gap
  · exact hlt (by simp)
  · exact absurd rfl h
  · have hlt := hlt (by simp)
    refine Nat.lt_of_le_of_lt ?_ hlt
    simp only [Reading.andThen_ok]
    split
    · rename_i hword
      refine Nat.le_trans (size_andThen_le size_tokenOfWord_le) (size_putBack_andThen_le ?_ rest)
      intro unread
      rw [readWord_held hword]
      exact size_readText_le _ _ _
    · split
      · rename_i hdigit
        refine Nat.le_trans (size_andThen_le fun _ _ => Nat.le_refl _)
          (size_putBack_andThen_le ?_ rest)
        intro unread
        rw [readNumber_held hdigit]
        exact size_readText_le _ _ _
      · split <;> exact Nat.le_refl _

theorem nextToken_size_lt_of_ok {s rest : ByteStream} {token : Token}
    (h : nextToken s = (.ok token, rest)) : rest.size < s.size := by
  have hlt := nextToken_size_lt (s := s)
  rw [h] at hlt
  exact hlt (by simp)

end CDeclarations
