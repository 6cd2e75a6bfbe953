import CDeclarations.Proofs.Reading.Texts
import CDeclarations.Proofs.Text.Ascii

namespace CDeclarations

/-- A letter or an underscore, and behind it letters, digits and underscores. -/
def IsNameChars (cs : List Char) : Prop :=
  ∃ first more, cs = first :: more ∧ Text.isWordStart first ∧ ∀ c ∈ more, Text.isWordChar c

/-- Digits, or `0x` with any number of hexadecimal digits. -/
def IsLiteralChars (cs : List Char) : Prop :=
  (cs ≠ [] ∧ ∀ c ∈ cs, c.isDigit) ∨
    ∃ x hex, cs = '0' :: x :: hex ∧ (x = 'x' ∨ x = 'X') ∧ ∀ c ∈ hex, Text.isHexDigit c

/-- A name that is not too long. Keywords are such names too. -/
def IsName (word : String) : Prop :=
  word.utf8ByteSize ≤ maxTokenLength ∧ IsNameChars word.toList

def IsLiteral (literal : String) : Prop :=
  literal.utf8ByteSize ≤ maxTokenLength ∧ IsLiteralChars literal.toList

/-- What can be read as a token. The name of a structure or of an enumeration may be a keyword. -/
def Token.IsReadable : Token → Prop
  | .identifier name => IsName name ∧ ∀ k : Keyword, k.spelling ≠ name
  | .type (.tagged _ name) => IsName name
  | .number literal => IsLiteral literal
  | _ => True

section Words

def IsWord (word : String) : Prop := ∀ c ∈ word.toList, Text.isWordChar c

theorem IsWord.isAscii {word : String} (h : IsWord word) : Text.IsAscii word := fun c hc =>
  Text.utf8Size_of_isWordChar (h c hc)

theorem IsWord.isPrintable {word : String} (h : IsWord word) : Text.IsPrintable word :=
  Text.isPrintable_of_isWordChar h

theorem IsNameChars.isWordChar {cs : List Char} (h : IsNameChars cs) :
    ∀ c ∈ cs, Text.isWordChar c := by
  obtain ⟨first, more, rfl, hstart, hmore⟩ := h
  exact List.forall_mem_cons.mpr ⟨Text.isWordChar_of_isWordStart hstart, hmore⟩

theorem IsLiteralChars.isWordChar {cs : List Char} (h : IsLiteralChars cs) :
    ∀ c ∈ cs, Text.isWordChar c := by
  rcases h with ⟨-, hdigits⟩ | ⟨x, hex, rfl, hx, hhex⟩
  · exact fun c hc => Text.isWordChar_of_isDigit (hdigits c hc)
  · have hx : Text.isWordChar x := by rcases hx with rfl | rfl <;> decide
    have hhex : ∀ c ∈ hex, Text.isWordChar c := fun c hc =>
      Text.isWordChar_of_isHexDigit (hhex c hc)
    exact List.forall_mem_cons.mpr ⟨by decide, List.forall_mem_cons.mpr ⟨hx, hhex⟩⟩

theorem IsName.isWord {word : String} (h : IsName word) : IsWord word := h.2.isWordChar

theorem IsLiteral.isWord {literal : String} (h : IsLiteral literal) : IsWord literal :=
  h.2.isWordChar

theorem Keyword.isName_spelling (k : Keyword) : IsName k.spelling := by
  rcases k with (q | s | t | k)
  · cases q <;> exact ⟨by decide, _, _, rfl, by decide, List.all_eq_true.mp (by decide)⟩
  · cases s <;> exact ⟨by decide, _, _, rfl, by decide, List.all_eq_true.mp (by decide)⟩
  · cases t <;> exact ⟨by decide, _, _, rfl, by decide, List.all_eq_true.mp (by decide)⟩
  · cases k <;> exact ⟨by decide, _, _, rfl, by decide, List.all_eq_true.mp (by decide)⟩

theorem Keyword.isWord_spelling (k : Keyword) : IsWord k.spelling :=
  k.isName_spelling.isWord

theorem IsWord.blank_notMem {word : String} (h : IsWord word) : ' ' ∉ word.toList := by
  intro hmem
  exact absurd (h _ hmem) (by decide)

theorem IsWord.newline_notMem {word : String} (h : IsWord word) : '\n' ∉ word.toList := by
  intro hmem
  exact absurd (h _ hmem) (by decide)

/-- The bytes of a word are as many as its characters. -/
theorem utf8ByteSize_ofBytes {text : List UInt8} (h : IsWord (Text.ofBytes text)) :
    (Text.ofBytes text).utf8ByteSize = text.length := by
  rw [IsWord, Text.ofBytes, String.toList_ofList] at h
  rw [Text.ofBytes, Text.utf8ByteSize_ofList, Text.width_of_forall, List.length_map]
  exact fun c hc => Text.utf8Size_of_isWordChar (h c hc)

/-- A name goes on with what names are made of. -/
theorem IsNameChars.append {text : List UInt8} {b : UInt8}
    (h : IsNameChars (text.map Char.ofUInt8)) (hb : wordGoesOn text b) :
    IsNameChars ((text ++ [b]).map Char.ofUInt8) := by
  obtain ⟨first, more, htext, hstart, hmore⟩ := h
  rw [List.map_append, htext]
  exact ⟨first, more ++ [Char.ofUInt8 b], rfl, hstart,
    List.forall_mem_append.mpr ⟨hmore, List.forall_mem_singleton.mpr hb⟩⟩

/-- A number goes on with digits, until an `x` behind a first `0` makes it hexadecimal. -/
theorem IsLiteralChars.append {text : List UInt8} {b : UInt8}
    (h : IsLiteralChars (text.map Char.ofUInt8)) (hb : numberGoesOn text b) :
    IsLiteralChars ((text ++ [b]).map Char.ofUInt8) := by
  unfold numberGoesOn at hb
  rw [List.map_append, List.map_singleton]
  dsimp only at hb
  -- Only the characters matter from here on, and `numberGoesOn` matches on them.
  generalize text.map Char.ofUInt8 = cs at h hb ⊢
  generalize Char.ofUInt8 b = c at hb ⊢
  rcases h with ⟨hne, hdigits⟩ | ⟨x, hex, rfl, hx, hhex⟩
  · have hmore : c.isDigit → IsLiteralChars (cs ++ [c]) := fun hdigit =>
      .inl ⟨by simp, List.forall_mem_append.mpr ⟨hdigits, List.forall_mem_singleton.mpr hdigit⟩⟩
    split at hb
    · simp only [Bool.or_eq_true, decide_eq_true_eq] at hb
      rcases hb with (hdigit | hx) | hx
      · exact hmore hdigit
      · exact .inr ⟨c, [], rfl, .inl hx, by simp⟩
      · exact .inr ⟨c, [], rfl, .inr hx, by simp⟩
    · exact absurd (hdigits 'x' (by simp)) (by decide)
    · exact absurd (hdigits 'X' (by simp)) (by decide)
    · exact hmore hb
  · have hhex' : Text.isHexDigit c := by
      rcases hx with rfl | rfl <;> exact hb
    exact .inr ⟨x, hex ++ [c], rfl, hx,
      List.forall_mem_append.mpr ⟨hhex, List.forall_mem_singleton.mpr hhex'⟩⟩

end Words

/-- The bytes of a text that is not too long, and what is known of its characters. -/
def IsTextOf (P : List Char → Prop) (text : List UInt8) : Prop :=
  text.length ≤ maxTokenLength ∧ P (text.map Char.ofUInt8)

section Read

variable {goesOn : List UInt8 → UInt8 → Bool} {P : List Char → Prop} {first : UInt8}
  {s rest : ByteStream} {word : String}

theorem IsTextOf.step (hstep : ∀ text b, P (text.map Char.ofUInt8) → goesOn text b →
    P ((text ++ [b]).map Char.ofUInt8)) {text : List UInt8} (h : IsTextOf P text) (b : UInt8) :
    ((textScanner goesOn).step text b).Keeps (IsTextOf P)
      fun answer => ∀ text, answer = .ok text → IsTextOf P text := by
  unfold textScanner
  dsimp only
  split
  · rename_i hb
    split
    · rename_i hroom
      refine ⟨?_, hstep text b h.2 hb⟩
      rw [List.length_append, List.length_singleton]
      exact hroom
    · intro text' herror
      cases herror
  · intro text' hok
    cases hok
    exact h

/-- What every byte that goes on with a text keeps holds of the text that is read. -/
theorem readText_invariant (hstep : ∀ text b, P (text.map Char.ofUInt8) → goesOn text b →
    P ((text ++ [b]).map Char.ofUInt8)) (hwords : ∀ cs, P cs → ∀ c ∈ cs, Text.isWordChar c)
    (hfirst : P [Char.ofUInt8 first]) (h : readText goesOn first s = (.ok word, rest)) :
    word.utf8ByteSize ≤ maxTokenLength ∧ P word.toList := by
  obtain ⟨text, between, hread, hword⟩ := Reading.andThen_eq_ok_iff.mp h
  obtain rfl : Text.ofBytes text = word := Except.ok.inj (Prod.mk.inj hword).1
  have hone : IsTextOf P [first] := ⟨by simp [maxTokenLength], hfirst⟩
  have htext : IsTextOf P text := by
    refine Scanner.run_invariant (Q := fun answer => ∀ text, answer = .ok text → IsTextOf P text)
      (fun text b htext => htext.step hstep b) ?_ ?_ hone (Scanner.read_eq_ok_iff.mp hread) text rfl
    · intro text next _ hresume
      cases hresume
    · intro text htext text' hfinish
      cases hfinish
      exact htext
  have hchars : P (Text.ofBytes text).toList := by
    rw [Text.ofBytes, String.toList_ofList]
    exact htext.2
  refine ⟨?_, hchars⟩
  rw [utf8ByteSize_ofBytes (hwords _ hchars)]
  exact htext.1

theorem isName_of_readText (hfirst : Text.isWordStart (Char.ofUInt8 first))
    (h : readText wordGoesOn first s = (.ok word, rest)) : IsName word := by
  have hone : IsNameChars [Char.ofUInt8 first] := ⟨_, [], rfl, hfirst, by simp⟩
  exact readText_invariant (fun _ _ htext hb => htext.append hb)
    (fun _ hcs => hcs.isWordChar) hone h

theorem isLiteral_of_readText (hfirst : (Char.ofUInt8 first).isDigit)
    (h : readText numberGoesOn first s = (.ok word, rest)) : IsLiteral word := by
  have hone : IsLiteralChars [Char.ofUInt8 first] :=
    .inl ⟨by simp, List.forall_mem_singleton.mpr hfirst⟩
  exact readText_invariant (fun _ _ htext hb => htext.append hb)
    (fun _ hcs => hcs.isWordChar) hone h

theorem isName_of_readWord (h : readWord s = (.ok word, rest)) : IsName word := by
  obtain ⟨found, between, -, hfound⟩ := Reading.andThen_eq_ok_iff.mp h
  cases found with
  | none => cases hfound
  | some b =>
    dsimp only at hfound
    split at hfound
    · rename_i hstart
      exact isName_of_readText hstart hfound
    · obtain ⟨_, _, -, herror⟩ := Reading.andThen_eq_ok_iff.mp hfound
      cases herror

theorem isReadable_of_tokenOfWord {t : Token} (hword : IsName word)
    (h : tokenOfWord word s = (.ok t, rest)) : t.IsReadable := by
  unfold tokenOfWord at h
  split at h
  case h_1 hkeyword =>
    cases h
    exact ⟨hword, Keyword.ofSpelling?_eq_none_iff.mp hkeyword⟩
  case h_5 =>
    obtain ⟨name, between, hname, htoken⟩ := Reading.andThen_eq_ok_iff.mp h
    cases htoken
    exact isName_of_readWord hname
  all_goals
    cases h
    trivial

/-- Whatever the source of the bytes, only tokens that can be written are read. -/
theorem isReadable_of_nextToken {t : Token} (h : nextToken s = (.ok t, rest)) :
    t.IsReadable := by
  obtain ⟨b, between, hskip⟩ := exists_found_of_ok h
  rw [nextToken_of_found hskip] at h
  split at h
  · rename_i hstart
    obtain ⟨word, behind, hword, htoken⟩ := Reading.andThen_eq_ok_iff.mp h
    exact isReadable_of_tokenOfWord (isName_of_readText hstart hword) htoken
  · split at h
    · rename_i hdigit
      obtain ⟨literal, behind, hliteral, htoken⟩ := Reading.andThen_eq_ok_iff.mp h
      cases htoken
      exact isLiteral_of_readText hdigit hliteral
    · split at h <;> cases h
      trivial

theorem utf8ByteSize_of_nextToken (h : nextToken s = (.ok (.identifier word), rest)) :
    word.utf8ByteSize ≤ maxTokenLength := by
  obtain ⟨hname, -⟩ := isReadable_of_nextToken h
  exact hname.1

end Read

end CDeclarations
