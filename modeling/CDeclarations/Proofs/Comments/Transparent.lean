import CDeclarations.Proofs.Comments.Blanked
import CDeclarations.Proofs.LongestMatch.EndOfInput
import CDeclarations.Proofs.Reading.UpToEnd

namespace CDeclarations

open LongestMatch

/-- What a reader makes of bytes, and of the same with a blank for each comment: either the same,
and so is what is left, or the one finds a comment that is not closed where the other finds the
end. -/
inductive CommentsApart {α : Type} (s : List UInt8) : MemoryReading α → MemoryReading α → Prop
  | same (answer : Except TokenError α) {left : List UInt8}
      (hopen : (blanked s).isOpen = (blanked left).isOpen) :
      CommentsApart s (answer, left) (answer, (blanked left).text)
  | unclosed (hopen : (blanked s).isOpen) :
      CommentsApart s (.error .unterminatedComment, []) (.error .endOfInput, [])

theorem CommentsApart.andThen {α β : Type} {s : List UInt8} {first first' : MemoryReading α}
    {second : α → List UInt8 → MemoryReading β} (h : CommentsApart s first first')
    (hsecond : ∀ a left, CommentsApart left (second a left) (second a (blanked left).text)) :
    CommentsApart s (first.andThen second) (first'.andThen second) := by
  cases h with
  | @same answer left hopen =>
    cases answer with
    | error e => exact .same (.error e) hopen
    | ok a =>
      have hnext := hsecond a left
      show CommentsApart s (second a left) (second a (blanked left).text)
      generalize second a left = next at hnext
      generalize second a (blanked left).text = next' at hnext
      cases hnext with
      | same answer hopen' => exact .same answer (hopen.trans hopen')
      | unclosed hopen' => exact .unclosed (hopen.trans hopen')
  | unclosed hopen => exact .unclosed hopen

section Runs

/-- A run that neither slash nor blank belongs to is not touched by comments. -/
theorem takeWhile_blanked {p : UInt8 → Bool} (hslash : p '/'.toUInt8 = false)
    (hblank : p ' '.toUInt8 = false) (s : List UInt8) :
    (blanked s).text.takeWhile p = s.takeWhile p := by
  induction s with
  | nil => rfl
  | cons b s ih =>
    by_cases hb : b = '/'.toUInt8
    · subst hb
      rw [List.takeWhile_cons_of_neg (by simp [hslash])]
      cases hcomment : behindComment? ('/'.toUInt8 :: s) with
      | some later =>
        rw [blanked_comment hcomment]
        exact List.takeWhile_cons_of_neg (by simp [hblank])
      | none =>
        by_cases hopen : opensComment ('/'.toUInt8 :: s)
        · rw [blanked_openComment hopen hcomment]
          rfl
        · rw [(blanked_front hcomment hopen).1]
          exact List.takeWhile_cons_of_neg (by simp [hslash])
    · rw [blanked_cons hb, Blanked.text_behind, List.singleton_append, List.takeWhile_cons,
        List.takeWhile_cons, ih]

theorem wordRun_blanked (s : List UInt8) : wordRun (blanked s).text = wordRun s :=
  takeWhile_blanked (by decide) (by decide) s

theorem numberRun_isPrefix (s : List UInt8) : numberRun s <+: s := by
  unfold numberRun
  split
  · split
    · exact List.cons_prefix_cons.mpr ⟨rfl, List.cons_prefix_cons.mpr
        ⟨rfl, List.takeWhile_prefix _⟩⟩
    · exact List.takeWhile_prefix _
  · exact List.takeWhile_prefix _

theorem slash_notMem_takeWhile {p : UInt8 → Bool} (hslash : p '/'.toUInt8 = false)
    (s : List UInt8) : '/'.toUInt8 ∉ s.takeWhile p := by
  intro hmem
  have hp := List.all_eq_true.mp (List.all_takeWhile (p := p) (l := s)) _ hmem
  rw [hslash] at hp
  cases hp

theorem slash_notMem_numberRun (s : List UInt8) : '/'.toUInt8 ∉ numberRun s := by
  unfold numberRun
  split
  · split
    · rename_i hhex
      have hx : '/'.toUInt8 ∉ ['0'.toUInt8, 'x'.toUInt8, 'X'.toUInt8] := by decide
      have hmore := slash_notMem_takeWhile (p := isHexByte) (by decide)
      grind
    · exact slash_notMem_takeWhile (by decide) _
  · exact slash_notMem_takeWhile (by decide) _

theorem numberRun_blanked (s : List UInt8) : numberRun (blanked s).text = numberRun s := by
  by_cases hhex : ∃ x more, s = '0'.toUInt8 :: x :: more ∧ (x = 'x'.toUInt8 ∨ x = 'X'.toUInt8)
  · obtain ⟨x, more, rfl, hx⟩ := hhex
    have hslash : '/'.toUInt8 ∉ ['0'.toUInt8, x] := by
      rcases hx with rfl | rfl <;> decide
    have htext : (blanked ('0'.toUInt8 :: x :: more)).text =
        '0'.toUInt8 :: x :: (blanked more).text := congrArg Blanked.text (blanked_append hslash more)
    rw [htext, numberRun, numberRun, if_pos ⟨rfl, hx⟩, if_pos ⟨rfl, hx⟩,
      takeWhile_blanked (by decide) (by decide)]
  · rw [numberRun_digits fun x more hs hx => hhex ⟨x, more, hs, hx⟩, numberRun_digits]
    · exact takeWhile_blanked (by decide) (by decide) s
    · -- The first two bytes of the one are those of the other, unless a comment is among them.
      intro x more htext hx
      let p : UInt8 → Bool := fun b => b ≠ '/'.toUInt8 && b ≠ ' '.toUInt8
      have hfirst := takeWhile_blanked (p := p) (by decide) (by decide) s
      have hkept : p x = true := by
        rcases hx with rfl | rfl <;> decide
      rw [htext, List.takeWhile_cons_of_pos (by decide), List.takeWhile_cons_of_pos hkept] at hfirst
      obtain ⟨later, hs⟩ := List.takeWhile_prefix p (l := s)
      rw [← hfirst] at hs
      exact hhex ⟨x, _, hs.symm, hx⟩

/-- A run that holds no slash is an item of the text with or without its comments. -/
theorem item_blanked {run s : List UInt8} (hrun : run <+: s) (hslash : '/'.toUInt8 ∉ run) :
    CommentsApart s (item run s) (item run (blanked s).text) := by
  obtain ⟨left, rfl⟩ := hrun
  rw [blanked_append hslash, Blanked.text_behind]
  unfold item
  by_cases hfits : run.length ≤ maxTokenLength
  · rw [if_pos hfits, if_pos hfits, List.drop_left, List.drop_left]
    exact .same _ (by rw [blanked_append hslash, Blanked.isOpen_behind])
  · have hle : maxTokenLength ≤ run.length := by omega
    have hcut : '/'.toUInt8 ∉ run.drop maxTokenLength := fun hmem =>
      hslash (List.mem_of_mem_drop hmem)
    have hleft : (blanked (run.drop maxTokenLength ++ left)).text =
        run.drop maxTokenLength ++ (blanked left).text := by
      rw [blanked_append hcut, Blanked.text_behind]
    rw [if_neg hfits, if_neg hfits, List.drop_append_of_le_length hle,
      List.drop_append_of_le_length hle, ← hleft]
    refine .same _ ?_
    rw [blanked_append hslash, blanked_append hcut, Blanked.isOpen_behind, Blanked.isOpen_behind]

end Runs

section Tokens

variable {s : List UInt8}

theorem CommentsApart.of_isOpen {α : Type} {t : List UInt8} {m m' : MemoryReading α}
    (h : CommentsApart t m m') (hopen : (blanked s).isOpen = (blanked t).isOpen) :
    CommentsApart s m m' := by
  cases h with
  | same answer hleft => exact .same answer (hopen.trans hleft)
  | unclosed ht => exact .unclosed (hopen.trans ht)

/-- In front of the next token there is the same byte with or without comments. -/
theorem front_blanked {b : UInt8} {rest : List UInt8} (h : dropGap s = b :: rest)
    (hopen : ¬ opensComment (b :: rest)) :
    (blanked s).isOpen = (blanked (b :: rest)).isOpen ∧
      (blanked (b :: rest)).isOpen = (blanked rest).isOpen ∧
      (blanked (b :: rest)).text = b :: (blanked rest).text ∧
      dropGap (blanked s).text = b :: (blanked rest).text ∧
      ¬ opensComment (b :: (blanked rest).text) := by
  obtain ⟨hfront, -, hopen'⟩ := blanked_front (of_dropGap_eq_cons h).2 hopen
  rcases dropGap_blanked s with ⟨hopens, -, -⟩ | ⟨-, hisOpen, hgap⟩
  · exact absurd (h ▸ hopens) hopen
  · rw [h, hfront] at hisOpen hgap
    rw [hfront]
    exact ⟨hisOpen, rfl, rfl, hgap, hopen'⟩

theorem unclosed_blanked {b : UInt8} {rest : List UInt8} (h : dropGap s = b :: rest)
    (hopen : opensComment (b :: rest)) :
    (blanked s).isOpen ∧ dropGap (blanked s).text = [] := by
  rcases dropGap_blanked s with ⟨-, hisOpen, hgap⟩ | ⟨hnot, -, -⟩
  · exact ⟨hisOpen, hgap⟩
  · exact absurd (h ▸ hopen) hnot

theorem end_blanked (h : dropGap s = []) :
    (blanked s).isOpen = (blanked []).isOpen ∧ dropGap (blanked s).text = [] := by
  rcases dropGap_blanked s with ⟨hopens, -, -⟩ | ⟨-, hisOpen, hgap⟩
  · rw [h] at hopens
    exact absurd hopens (by decide)
  · rw [h] at hisOpen hgap
    exact ⟨hisOpen, hgap⟩

theorem wordItem_blanked (s : List UInt8) :
    CommentsApart s (item (wordRun s) s) (item (wordRun (blanked s).text) (blanked s).text) := by
  rw [wordRun_blanked]
  exact item_blanked (List.takeWhile_prefix _) (slash_notMem_takeWhile (by decide) s)

theorem numberItem_blanked (s : List UInt8) :
    CommentsApart s (item (numberRun s) s) (item (numberRun (blanked s).text) (blanked s).text) := by
  rw [numberRun_blanked]
  exact item_blanked (numberRun_isPrefix s) (slash_notMem_numberRun s)

theorem tagName_blanked (s : List UInt8) :
    CommentsApart s (tagName s) (tagName (blanked s).text) := by
  unfold tagName
  cases h : dropGap s with
  | nil =>
    obtain ⟨hisOpen, hgap⟩ := end_blanked h
    rw [hgap]
    exact .same _ hisOpen
  | cons b rest =>
    dsimp only
    by_cases hopen : opensComment (b :: rest)
    · obtain ⟨hisOpen, hgap⟩ := unclosed_blanked h hopen
      rw [hgap, if_pos hopen]
      exact .unclosed hisOpen
    · obtain ⟨hthere, hrest, htext, hgap, hopen'⟩ := front_blanked h hopen
      rw [hgap, if_neg hopen]
      dsimp only
      rw [if_neg hopen']
      by_cases hstart : Text.isWordStart (Char.ofUInt8 b)
      · rw [if_pos hstart, if_pos hstart, ← htext]
        exact (wordItem_blanked (b :: rest)).of_isOpen hthere
      · rw [if_neg hstart, if_neg hstart]
        by_cases hb : b = '/'.toUInt8
        · rw [if_pos hb, if_pos hb]
          exact .same _ (hthere.trans hrest)
        · rw [if_neg hb, if_neg hb, ← htext]
          exact .same _ hthere

theorem ofWord_blanked (word : String) (s : List UInt8) :
    CommentsApart s (ofWord word s) (ofWord word (blanked s).text) := by
  unfold ofWord
  split
  case h_5 kind hkeyword =>
    exact (tagName_blanked s).andThen fun name left => .same _ rfl
  all_goals exact .same _ rfl

/-- One token is read, or one error found, in the text with or without its comments. -/
theorem token_blanked (s : List UInt8) :
    CommentsApart s (token s) (token (blanked s).text) := by
  unfold token
  cases h : dropGap s with
  | nil =>
    obtain ⟨hisOpen, hgap⟩ := end_blanked h
    rw [hgap]
    exact .same _ hisOpen
  | cons b rest =>
    dsimp only
    by_cases hopen : opensComment (b :: rest)
    · obtain ⟨hisOpen, hgap⟩ := unclosed_blanked h hopen
      rw [hgap, if_pos hopen]
      exact .unclosed hisOpen
    · obtain ⟨hthere, hrest, htext, hgap, hopen'⟩ := front_blanked h hopen
      rw [hgap, if_neg hopen]
      dsimp only
      rw [if_neg hopen']
      by_cases hstart : Text.isWordStart (Char.ofUInt8 b)
      · rw [if_pos hstart, if_pos hstart, ← htext]
        exact ((wordItem_blanked (b :: rest)).andThen ofWord_blanked).of_isOpen hthere
      · rw [if_neg hstart, if_neg hstart]
        by_cases hdigit : (Char.ofUInt8 b).isDigit
        · rw [if_pos hdigit, if_pos hdigit, ← htext]
          refine ((numberItem_blanked (b :: rest)).andThen ?_).of_isOpen hthere
          exact fun literal left => .same _ rfl
        · rw [if_neg hdigit, if_neg hdigit]
          cases Punctuation.ofSymbol? (Char.ofUInt8 b) with
          | none => exact .same _ (hthere.trans hrest)
          | some mark => exact .same _ (hthere.trans hrest)

end Tokens

theorem readTokens_of_blanked {bytes : List UInt8} {s t : ByteStream}
    (hs : s.events = bytes.map .byte) (ht : t.events = (blanked bytes).text.map .byte) :
    (readTokens s).1 =
      (readTokens t).1 ++ if (blanked bytes).isOpen then [.error .unterminatedComment] else [] := by
  -- Each reading leaves less, and what the two streams still bring differs in comments only.
  induction hlength : bytes.length using Nat.strongRecOn generalizing bytes s t with
  | ind length ih =>
    have happart := token_blanked bytes
    generalize hread : token bytes = read at happart
    generalize hread' : token (blanked bytes).text = read' at happart
    cases happart with
    | @same answer left hopen =>
      by_cases hend : answer = .error .endOfInput
      · subst hend
        obtain rfl := left_of_token_end hread
        rw [readTokens_of_end hs hread, readTokens_of_end ht hread', hopen]
        rfl
      · obtain ⟨rest, hrest, hall⟩ := readTokens_of_token hs hread hend
        obtain ⟨rest', hrest', hall'⟩ := readTokens_of_token ht hread' hend
        have hless : left.length < length := hlength ▸ length_lt_of_token hread hend
        rw [hall, hall', ih left.length hless hrest hrest' rfl, hopen, List.cons_append]
    | unclosed hopen =>
      have hmore : (.error .unterminatedComment : Except TokenError Token) ≠ .error .endOfInput := by
        simp [TokenError.unterminatedComment]
      obtain ⟨rest, hrest, hall⟩ := readTokens_of_token hs hread hmore
      rw [hall, readTokens_of_end ht hread', readTokens_of_isGap hrest (.nothing []), if_pos hopen]
      rfl

/-- With a blank in the place of each comment the same is read. A block comment that is not closed
is found where the text in front of it ends. -/
theorem readTokens_blanked (bytes : List UInt8) :
    (readTokens (.ofBytes bytes)).1 =
        (readTokens (.ofBytes (blanked bytes).text)).1 ++
          (if (blanked bytes).isOpen then [.error .unterminatedComment] else []) ∧
      UpToEnd (.ofBytes bytes) (readTokens (.ofBytes bytes)).1 ∧
      UpToEnd (.ofBytes (blanked bytes).text) (readTokens (.ofBytes (blanked bytes).text)).1 :=
  ⟨readTokens_of_blanked (ByteStream.events_ofBytes _) (ByteStream.events_ofBytes _),
    upToEnd_readTokens _, upToEnd_readTokens _⟩

end CDeclarations
