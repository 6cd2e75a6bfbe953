import CDeclarations.Proofs.LongestMatch.Scan

namespace CDeclarations

/-- What a reader makes of bytes in memory, and the bytes that it leaves. -/
abbrev MemoryReading (α : Type) := Except TokenError α × List UInt8

/-- Reads on behind a success and stops at an error. -/
def MemoryReading.andThen {α β : Type} (first : MemoryReading α)
    (second : α → List UInt8 → MemoryReading β) : MemoryReading β :=
  match first with
  | (.ok a, rest) => second a rest
  | (.error e, rest) => (.error e, rest)

theorem MemoryReading.andThen_eq_ok_iff {α β : Type} {first : MemoryReading α}
    {second : α → List UInt8 → MemoryReading β} {b : β} {left : List UInt8} :
    first.andThen second = (.ok b, left) ↔
      ∃ a rest, first = (.ok a, rest) ∧ second a rest = (.ok b, left) := by
  obtain ⟨_ | a, rest⟩ := first
  · simp [andThen]
  · constructor
    · intro h
      exact ⟨a, rest, rfl, h⟩
    · intro h
      obtain ⟨a', rest', hfirst, hsecond⟩ := h
      cases hfirst
      exact hsecond

theorem MemoryReading.suffix_andThen {α β : Type} {first : MemoryReading α}
    {second : α → List UInt8 → MemoryReading β} {s : List UInt8} (hfirst : first.2 <:+ s)
    (hsecond : ∀ a rest, (second a rest).2 <:+ rest) : (first.andThen second).2 <:+ s := by
  obtain ⟨_ | a, rest⟩ := first
  · exact hfirst
  · exact (hsecond a rest).trans hfirst

/-- A reading comes out as one in memory, and the stream behind it brings the bytes left there. -/
def Reading.Agrees {α : Type} (r : Reading α) (m : MemoryReading α) : Prop :=
  r.1 = m.1 ∧ r.2.events = m.2.map .byte

theorem Reading.Agrees.andThen {α β : Type} {first : Reading α} {m : MemoryReading α}
    {second : α → ByteStream → Reading β} {secondInMemory : α → List UInt8 → MemoryReading β}
    (h : first.Agrees m)
    (hsecond : ∀ a s bytes, s.events = bytes.map .byte →
      (second a s).Agrees (secondInMemory a bytes)) :
    (first.andThen second).Agrees (MemoryReading.andThen m secondInMemory) := by
  obtain ⟨answer, s⟩ := first
  obtain ⟨answer', bytes⟩ := m
  obtain ⟨hanswer, hbytes⟩ := h
  obtain rfl : answer = answer' := hanswer
  cases answer with
  | ok a => exact hsecond a s bytes hbytes
  | error e => exact ⟨rfl, hbytes⟩

/-- The stream of bytes of which the first has been looked at and put back. -/
def lookedAt : List UInt8 → ByteStream
  | [] => ⟨none, []⟩
  | b :: s => ⟨some b, s.map .byte⟩

@[simp] theorem events_lookedAt (s : List UInt8) : (lookedAt s).events = s.map .byte := by
  cases s <;> rfl

theorem toUInt8_ofUInt8 (b : UInt8) : (Char.ofUInt8 b).toUInt8 = b := by
  show b.toUInt32.toUInt8 = b
  exact UInt8.toUInt8_toUInt32 b

theorem ofUInt8_eq_iff {b : UInt8} {c : Char} (hc : Char.ofUInt8 c.toUInt8 = c) :
    Char.ofUInt8 b = c ↔ b = c.toUInt8 := by
  constructor
  · intro h
    subst h
    exact (toUInt8_ofUInt8 b).symm
  · intro h
    subst h
    exact hc

namespace LongestMatch

def isWordByte (b : UInt8) : Bool := Text.isWordChar (Char.ofUInt8 b)

def isDigitByte (b : UInt8) : Bool := (Char.ofUInt8 b).isDigit

def isHexByte (b : UInt8) : Bool := Text.isHexDigit (Char.ofUInt8 b)

/-- The longest run of letters, digits and underscores at the front. -/
def wordRun (s : List UInt8) : List UInt8 := s.takeWhile isWordByte

/-- The longest run at the front that is `0x` with hexadecimal digits or that is digits. -/
def numberRun : List UInt8 → List UInt8
  | zero :: x :: s =>
    if zero = '0'.toUInt8 ∧ (x = 'x'.toUInt8 ∨ x = 'X'.toUInt8) then
      zero :: x :: s.takeWhile isHexByte
    else (zero :: x :: s).takeWhile isDigitByte
  | s => s.takeWhile isDigitByte

theorem numberRun_digits {s : List UInt8}
    (h : ∀ x more, s = '0'.toUInt8 :: x :: more → ¬ (x = 'x'.toUInt8 ∨ x = 'X'.toUInt8)) :
    numberRun s = s.takeWhile isDigitByte := by
  unfold numberRun
  split
  · rename_i zero x more
    refine if_neg fun hhex => ?_
    obtain ⟨rfl, hx⟩ := hhex
    exact h x more rfl hx
  · rfl

/-- The run at the front as a text. Of one that is too long only as much as a text can hold is
used up. -/
def item (run s : List UInt8) : MemoryReading String :=
  if run.length ≤ maxTokenLength then (.ok (Text.ofBytes run), s.drop run.length)
  else (.error .tooLong, s.drop maxTokenLength)

theorem item_append {run : List UInt8} (h : run.length ≤ maxTokenLength) (behind : List UInt8) :
    item run (run ++ behind) = (.ok (Text.ofBytes run), behind) := by
  rw [item, if_pos h, List.drop_left]

theorem item_suffix (run s : List UInt8) : (item run s).2 <:+ s := by
  unfold item
  split <;> exact List.drop_suffix _ _

theorem of_item_wordRun_eq_ok {s left : List UInt8} {word : String}
    (h : item (wordRun s) s = (.ok word, left)) :
    s = wordRun s ++ left ∧ word = Text.ofBytes (wordRun s) := by
  obtain ⟨behind, hbehind⟩ : wordRun s <+: s := List.takeWhile_prefix isWordByte
  unfold item at h
  split at h
  · simp only [Prod.mk.injEq, Except.ok.injEq] at h
    obtain ⟨rfl, rfl⟩ := h
    refine ⟨?_, rfl⟩
    have hdrop : (wordRun s ++ behind).drop (wordRun s).length = behind := List.drop_left
    rw [hbehind] at hdrop
    rw [hdrop, hbehind]
  · cases h

end LongestMatch

open LongestMatch

/-- A text that goes on with the bytes of one class takes the longest run of them, unless it
gets too long before. -/
theorem run_textScanner {goesOn : List UInt8 → UInt8 → Bool} {p : UInt8 → Bool}
    {text : List UInt8} (hp : ∀ more b, goesOn (text ++ more) b = p b)
    (htext : text.length ≤ maxTokenLength) (s : List UInt8) :
    (textScanner goesOn).run text (s.map .byte) =
      if text.length + (s.takeWhile p).length ≤ maxTokenLength then
        (.ok (.ok (text ++ s.takeWhile p)), lookedAt (s.drop (s.takeWhile p).length))
      else (.ok (.error .tooLong), lookedAt (s.drop (maxTokenLength - text.length))) := by
  -- The text grows with each byte that is taken, so the bytes left decide for every text.
  induction s generalizing text with
  | nil => simp [Scanner.run, textScanner, lookedAt, htext]
  | cons b s ih =>
    have hgoesOn : goesOn text b = p b := by simpa using hp [] b
    rw [List.map_cons, Scanner.run]
    by_cases hb : p b
    · rw [List.takeWhile_cons_of_pos hb, List.length_cons, List.drop_succ_cons]
      by_cases hroom : text.length < maxTokenLength
      · have hmore : ∀ more b', goesOn ((text ++ [b]) ++ more) b' = p b' := fun more b' => by
          rw [List.append_assoc]
          exact hp ([b] ++ more) b'
        have hlength : (text ++ [b]).length = text.length + 1 := by simp
        have hdrop : maxTokenLength - text.length = maxTokenLength - (text.length + 1) + 1 := by
          omega
        have hsum : text.length + 1 + (s.takeWhile p).length =
            text.length + ((s.takeWhile p).length + 1) := by omega
        have hrun := ih hmore (by omega)
        rw [hlength, hsum] at hrun
        simp only [textScanner, hgoesOn, hb, hroom, if_true] at hrun ⊢
        rw [hrun, List.append_assoc, List.singleton_append, hdrop, List.drop_succ_cons]
      · have hfull : maxTokenLength - text.length = 0 := by omega
        have hlong : ¬ text.length + ((s.takeWhile p).length + 1) ≤ maxTokenLength := by omega
        simp only [textScanner, hgoesOn, hb, hroom, if_true, if_false]
        rw [if_neg hlong, hfull]
        rfl
    · rw [List.takeWhile_cons_of_neg hb, List.append_nil, if_pos (by simpa using htext)]
      simp [textScanner, hgoesOn, hb, lookedAt]

theorem read_textScanner {goesOn : List UInt8 → UInt8 → Bool} {p : UInt8 → Bool}
    {text rest : List UInt8} (hp : ∀ more b, goesOn (text ++ more) b = p b)
    (htext : text.length ≤ maxTokenLength) {first : UInt8} {s : ByteStream}
    (hrun : (textScanner goesOn).run [first] s.events =
      (textScanner goesOn).run text (rest.map .byte)) :
    (readText goesOn first s).Agrees (item (text ++ rest.takeWhile p) (text ++ rest)) := by
  have hread := run_textScanner hp htext rest
  have hdrop : ∀ n, text.length ≤ n → (text ++ rest).drop n = rest.drop (n - text.length) :=
    fun n hn => by rw [List.drop_append, List.drop_eq_nil_of_le hn, List.nil_append]
  unfold item readText Scanner.read
  rw [hrun, hread, List.length_append]
  by_cases hfits : text.length + (rest.takeWhile p).length ≤ maxTokenLength
  · rw [if_pos hfits, if_pos hfits, hdrop _ (Nat.le_add_right _ _), Nat.add_sub_cancel_left]
    exact ⟨rfl, events_lookedAt _⟩
  · rw [if_neg hfits, if_neg hfits, hdrop _ htext]
    exact ⟨rfl, events_lookedAt _⟩

theorem readText_word {first : UInt8} {rest : List UInt8} {s : ByteStream}
    (hfirst : isWordByte first) (hs : s.events = rest.map .byte) :
    (readText wordGoesOn first s).Agrees (item (wordRun (first :: rest)) (first :: rest)) := by
  have hp : ∀ more b, wordGoesOn ([first] ++ more) b = isWordByte b := fun _ _ => rfl
  have hone : [first].length ≤ maxTokenLength := by simp [maxTokenLength]
  rw [wordRun, List.takeWhile_cons_of_pos hfirst]
  exact read_textScanner hp hone (by rw [hs])

theorem numberGoesOn_hex {x : UInt8} (hx : x = 'x'.toUInt8 ∨ x = 'X'.toUInt8)
    (more : List UInt8) (b : UInt8) :
    numberGoesOn (['0'.toUInt8, x] ++ more) b = isHexByte b := by
  rcases hx with rfl | rfl <;> rfl

/-- A number that begins with neither `0x` nor `0X` goes on with digits. -/
theorem numberGoesOn_digits {first second : UInt8}
    (h : ¬ (first = '0'.toUInt8 ∧ (second = 'x'.toUInt8 ∨ second = 'X'.toUInt8)))
    (more : List UInt8) (b : UInt8) :
    numberGoesOn ([first, second] ++ more) b = isDigitByte b := by
  have hzero : Char.ofUInt8 first = '0' ↔ first = '0'.toUInt8 := ofUInt8_eq_iff (by decide)
  have hx : Char.ofUInt8 second = 'x' ↔ second = 'x'.toUInt8 := ofUInt8_eq_iff (by decide)
  have hX : Char.ofUInt8 second = 'X' ↔ second = 'X'.toUInt8 := ofUInt8_eq_iff (by decide)
  simp only [numberGoesOn, List.cons_append, List.nil_append, List.map_cons]
  split
  · rename_i heq
    simp at heq
  · rename_i heq
    simp only [List.cons.injEq] at heq
    exact absurd ⟨hzero.mp heq.1, .inl (hx.mp heq.2.1)⟩ h
  · rename_i heq
    simp only [List.cons.injEq] at heq
    exact absurd ⟨hzero.mp heq.1, .inr (hX.mp heq.2.1)⟩ h
  · rfl

theorem numberGoesOn_first {first second : UInt8}
    (h : ¬ (first = '0'.toUInt8 ∧ (second = 'x'.toUInt8 ∨ second = 'X'.toUInt8))) :
    numberGoesOn [first] second = isDigitByte second := by
  have hzero : Char.ofUInt8 first = '0' ↔ first = '0'.toUInt8 := ofUInt8_eq_iff (by decide)
  have hx : Char.ofUInt8 second = 'x' ↔ second = 'x'.toUInt8 := ofUInt8_eq_iff (by decide)
  have hX : Char.ofUInt8 second = 'X' ↔ second = 'X'.toUInt8 := ofUInt8_eq_iff (by decide)
  simp only [numberGoesOn, List.map_cons, List.map_nil]
  split
  · rename_i heq
    have hfirst : first = '0'.toUInt8 := hzero.mp (List.cons.inj heq).1
    have hother : ¬ (second = 'x'.toUInt8 ∨ second = 'X'.toUInt8) := fun hsecond => h ⟨hfirst, hsecond⟩
    rw [← hx, ← hX, not_or] at hother
    simp [hother.1, hother.2, isDigitByte]
  · rename_i heq
    simp at heq
  · rename_i heq
    simp at heq
  · rfl

theorem run_second {first second : UInt8} {more : List UInt8} {s : ByteStream}
    (hgoesOn : numberGoesOn [first] second) (hs : s.events = (second :: more).map .byte) :
    (textScanner numberGoesOn).run [first] s.events =
      (textScanner numberGoesOn).run [first, second] (more.map .byte) := by
  rw [hs, List.map_cons, Scanner.run]
  simp [textScanner, hgoesOn, maxTokenLength]

theorem readText_number {first : UInt8} {rest : List UInt8} {s : ByteStream}
    (hfirst : isDigitByte first) (hs : s.events = rest.map .byte) :
    (readText numberGoesOn first s).Agrees (item (numberRun (first :: rest)) (first :: rest)) := by
  have htwo : ∀ second : UInt8, [first, second].length ≤ maxTokenLength := by simp [maxTokenLength]
  cases rest with
  | nil =>
    rw [numberRun, List.takeWhile_cons_of_pos hfirst]
    · simp [readText, Scanner.read, hs, Scanner.run, textScanner, item, Reading.Agrees,
        maxTokenLength]
    · simp
  | cons second more =>
    rw [numberRun]
    by_cases hhex : first = '0'.toUInt8 ∧ (second = 'x'.toUInt8 ∨ second = 'X'.toUInt8)
    · have hgoesOn : numberGoesOn [first] second = true := by
        rcases hhex with ⟨rfl, rfl | rfl⟩ <;> rfl
      rw [if_pos hhex]
      exact read_textScanner (fun later b => hhex.1 ▸ numberGoesOn_hex hhex.2 later b) (htwo second)
        (run_second hgoesOn hs)
    · rw [if_neg hhex, List.takeWhile_cons_of_pos hfirst]
      by_cases hsecond : isDigitByte second
      · have hgoesOn : numberGoesOn [first] second = true := by rw [numberGoesOn_first hhex, hsecond]
        rw [List.takeWhile_cons_of_pos hsecond]
        exact read_textScanner (numberGoesOn_digits hhex) (htwo second) (run_second hgoesOn hs)
      · rw [List.takeWhile_cons_of_neg hsecond]
        simp [readText, Scanner.read, hs, Scanner.run, textScanner, numberGoesOn_first hhex, hsecond,
          item, Reading.Agrees, maxTokenLength]

end CDeclarations
