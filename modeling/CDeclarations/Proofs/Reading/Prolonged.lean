import CDeclarations.Proofs.Grammar.Answers
import CDeclarations.Proofs.Reading.Found

namespace CDeclarations

/-- The stream with more reads to come behind its own. -/
def ByteStream.append (s : ByteStream) (more : List ReadEvent) : ByteStream :=
  { s with unread := s.unread ++ more }

@[simp] theorem ByteStream.events_append (s : ByteStream) (more : List ReadEvent) :
    (s.append more).events = s.events ++ more := by
  obtain ⟨_ | _, unread⟩ := s <;> rfl

theorem ByteStream.ofBytes_append (a b : List UInt8) :
    ofBytes (a ++ b) = (ofBytes a).append (b.map .byte) := by
  simp [ofBytes, ofEvents, append]

/-- A scan that did not come to the end of the input, because it left something or because its
answer is none that the end gives, makes the same of a longer input. -/
theorem Scanner.run_append {σ α : Type} (m : Scanner σ α) {state : σ} {events : List ReadEvent}
    (h : (m.run state events).2.events ≠ [] ∨
      ∀ last, (m.run state events).1 ≠ .ok (m.finish last)) (more : List ReadEvent) :
    m.run state (events ++ more) =
      ((m.run state events).1, (m.run state events).2.append more) := by
  induction events generalizing state with
  | nil =>
    rcases h with hrest | hanswer
    · exact absurd rfl hrest
    · exact absurd rfl (hanswer state)
  | cons event events ih =>
    rw [List.cons_append]
    cases event with
    | byte b =>
      rw [run] at h ⊢
      rw [run]
      split at h
      · exact ih h
      · rfl
      · rfl
    | fault cause =>
      rw [run] at h ⊢
      rw [run]
      by_cases hcause : cause = .interrupted
      · rw [if_pos hcause] at h
        rw [if_pos hcause, if_pos hcause]
        exact ih h
      · rw [if_neg hcause, if_neg hcause]
        rfl
    | ended =>
      rw [run] at h ⊢
      rw [run]
      split at h
      · exact ih h
      · rfl

theorem Scanner.read_append {σ α : Type} {m : Scanner σ (Except TokenError α)} {state : σ}
    {s rest : ByteStream} {a : α} (h : m.read state s = (.ok a, rest))
    (hstops : rest.events ≠ [] ∨ ∀ last, m.finish last ≠ .ok a) (more : List ReadEvent) :
    m.read state (s.append more) = (.ok a, rest.append more) := by
  have hrun := Scanner.read_eq_ok_iff.mp h
  have hends : (m.run state s.events).2.events ≠ [] ∨
      ∀ last, (m.run state s.events).1 ≠ .ok (m.finish last) := by
    rw [hrun]
    exact hstops.imp_right fun hfinish last heq => hfinish last (Except.ok.inj heq).symm
  have hlonger := m.run_append hends more
  rw [hrun] at hlonger
  rw [Scanner.read_eq_ok_iff, ByteStream.events_append, hlonger]

theorem skipGap_append {s rest : ByteStream} {b : UInt8} (h : skipGap s = (.ok (some b), rest))
    (hstops : rest.events ≠ [] ∨ b ≠ '/'.toUInt8) (more : List ReadEvent) :
    skipGap (s.append more) = (.ok (some b), rest.append more) := by
  refine Scanner.read_append h (hstops.imp_right fun hb last hfinish => ?_) more
  cases last <;> cases hfinish
  exact hb rfl

theorem readText_append {goesOn : List UInt8 → UInt8 → Bool} {first : UInt8}
    {s rest : ByteStream} {text : String} (h : readText goesOn first s = (.ok text, rest))
    (hrest : rest.events ≠ []) (more : List ReadEvent) :
    readText goesOn first (s.append more) = (.ok text, rest.append more) := by
  obtain ⟨bytes, between, hread, htext⟩ := Reading.andThen_eq_ok_iff.mp h
  obtain ⟨rfl, rfl⟩ : Text.ofBytes bytes = text ∧ between = rest := by
    simpa using htext
  rw [readText, Scanner.read_append hread (.inl hrest) more]
  rfl

theorem events_ne_nil_of_readText {goesOn : List UInt8 → UInt8 → Bool} {first : UInt8}
    {s rest : ByteStream} {outcome : Except TokenError String}
    (h : readText goesOn first s = (outcome, rest)) (hrest : rest.events ≠ []) :
    s.events ≠ [] := by
  have hsuffix := readText_events_suffix goesOn first s
  rw [h] at hsuffix
  intro hs
  rw [hs] at hsuffix
  exact hrest (List.suffix_nil.mp hsuffix)

/-- A word is read without a look behind it when something is left there to end it. -/
theorem readWord_append {s rest : ByteStream} {word : String} (h : readWord s = (.ok word, rest))
    (hrest : rest.events ≠ []) (more : List ReadEvent) :
    readWord (s.append more) = (.ok word, rest.append more) := by
  obtain ⟨found, between, hskip, hfound⟩ := Reading.andThen_eq_ok_iff.mp h
  cases found with
  | none => cases hfound
  | some b =>
    dsimp only at hfound
    split at hfound
    · rename_i hstart
      have hbetween := events_ne_nil_of_readText hfound hrest
      rw [readWord, readItem, skipGap_append hskip (.inl hbetween), Reading.andThen_ok]
      dsimp only
      rw [if_pos hstart, readText_append hfound hrest]
    · obtain ⟨_, _, -, herror⟩ := Reading.andThen_eq_ok_iff.mp hfound
      cases herror

theorem tokenOfWord_append {word : String} {s rest : ByteStream} {t : Token}
    (h : tokenOfWord word s = (.ok t, rest)) (hrest : rest.events ≠ []) (more : List ReadEvent) :
    tokenOfWord word (s.append more) = (.ok t, rest.append more) := by
  unfold tokenOfWord at h ⊢
  split at h
  case h_5 kind hkeyword =>
    obtain ⟨name, between, hname, htoken⟩ := Reading.andThen_eq_ok_iff.mp h
    cases htoken
    rw [readWord_append hname hrest]
    rfl
  all_goals
    cases h
    rfl

theorem events_ne_nil_of_tokenOfWord {word : String} {s rest : ByteStream} {t : Token}
    (h : tokenOfWord word s = (.ok t, rest)) (hrest : rest.events ≠ []) : s.events ≠ [] := by
  have hle := size_tokenOfWord_le word s
  rw [h, ByteStream.size, ByteStream.size] at hle
  intro hs
  rw [hs] at hle
  exact hrest (List.length_eq_zero_iff.mp (Nat.le_zero.mp hle))

/-- A token that leaves something, or a mark other than a slash, is read without a look behind
it. -/
theorem nextToken_append {s rest : ByteStream} {t : Token} (h : nextToken s = (.ok t, rest))
    (hstops : rest.events ≠ [] ∨ ∃ mark, t = .punctuation mark ∧ mark ≠ .slash)
    (more : List ReadEvent) : nextToken (s.append more) = (.ok t, rest.append more) := by
  obtain ⟨b, between, hskip⟩ := exists_found_of_ok h
  rw [nextToken_of_found hskip] at h
  by_cases hstart : Text.isWordStart (Char.ofUInt8 b)
  · rw [if_pos hstart] at h
    obtain ⟨word, behind, hword, htoken⟩ := Reading.andThen_eq_ok_iff.mp h
    have hrest : rest.events ≠ [] := by
      rcases hstops with hrest | ⟨mark, rfl, -⟩
      · exact hrest
      · exact absurd htoken tokenOfWord_ne_punctuation
    have hbehind := events_ne_nil_of_tokenOfWord htoken hrest
    have hlonger := readText_append hword hbehind more
    rw [nextToken_of_found (skipGap_append hskip (.inr (ne_slash_of_isWordStart hstart)) more),
      if_pos hstart]
    exact Reading.andThen_eq_ok_iff.mpr ⟨word, _, hlonger, tokenOfWord_append htoken hrest more⟩
  · rw [if_neg hstart] at h
    by_cases hdigit : (Char.ofUInt8 b).isDigit
    · rw [if_pos hdigit] at h
      obtain ⟨literal, behind, hliteral, htoken⟩ := Reading.andThen_eq_ok_iff.mp h
      cases htoken
      have hrest : rest.events ≠ [] := by
        rcases hstops with hrest | ⟨mark, hmark, -⟩
        · exact hrest
        · cases hmark
      rw [nextToken_of_found (skipGap_append hskip (.inr (ne_slash_of_isDigit hdigit)) more),
        if_neg hstart, if_pos hdigit]
      exact Reading.andThen_eq_ok_iff.mpr ⟨literal, _, readText_append hliteral hrest more, rfl⟩
    · rw [if_neg hdigit] at h
      split at h
      · rename_i mark hmark
        cases h
        have hbyte : rest.events ≠ [] ∨ b ≠ '/'.toUInt8 := by
          refine hstops.imp_right fun hother hb => ?_
          obtain ⟨_, hsame, hslash⟩ := hother
          cases hsame
          subst hb
          exact hslash (Option.some.inj hmark).symm
        rw [nextToken_of_found (skipGap_append hskip hbyte more), if_neg hstart, if_neg hdigit,
          hmark]
      · cases h

theorem ReadsOff.size_add_length_le {s rest : ByteStream} {tokens : List Token}
    (h : ReadsOff s tokens rest) : rest.size + tokens.length ≤ s.size := by
  induction tokens generalizing s with
  | nil =>
    obtain rfl := readsOff_nil.mp h
    exact Nat.le_refl _
  | cons token tokens ih =>
    obtain ⟨next, hnext, hmore⟩ := readsOff_cons.mp h
    have hlt := nextToken_size_lt_of_ok hnext
    have hle := ih hmore
    rw [List.length_cons]
    omega

/-- Tokens that leave something are read without a look behind it. -/
theorem ReadsOff.append_of_left {s rest : ByteStream} {tokens : List Token}
    (h : ReadsOff s tokens rest) (hleft : rest.events ≠ []) (more : List ReadEvent) :
    ReadsOff (s.append more) tokens (rest.append more) := by
  induction tokens generalizing s with
  | nil =>
    obtain rfl := readsOff_nil.mp h
    exact readsOff_nil.mpr rfl
  | cons token tokens ih =>
    obtain ⟨next, hnext, hmore⟩ := readsOff_cons.mp h
    have hsize := hmore.size_add_length_le
    have hpos : 0 < rest.size := List.length_pos_iff.mpr hleft
    have hnextpos : 0 < next.size := by omega
    have hbetween : next.events ≠ [] := List.length_pos_iff.mp hnextpos
    exact readsOff_cons.mpr ⟨_, nextToken_append hnext (.inl hbetween) more, ih hmore⟩

theorem ReadsOff.ne_nil {s rest : ByteStream} {token : Token} {tokens : List Token}
    (h : ReadsOff s (token :: tokens) rest) : s.events ≠ [] := by
  have hsize := h.size_add_length_le
  rw [List.length_cons] at hsize
  have hpos : 0 < s.size := by omega
  exact List.length_pos_iff.mp hpos

/-- Tokens up to a semicolon are read without a look behind it: each of them leaves the semicolon,
which is a mark. -/
theorem ReadsOff.append {s rest : ByteStream} {tokens : List Token}
    (h : ReadsOff s (tokens ++ [.punctuation .semicolon]) rest) (more : List ReadEvent) :
    ReadsOff (s.append more) (tokens ++ [.punctuation .semicolon]) (rest.append more) := by
  obtain ⟨between, hfirst, hlast⟩ := readsOff_append.mp h
  have hlonger := hfirst.append_of_left hlast.ne_nil more
  obtain ⟨next, hnext, hrest⟩ := readsOff_cons.mp hlast
  obtain rfl := readsOff_nil.mp hrest
  have hmark : Punctuation.semicolon ≠ .slash := by decide
  exact readsOff_append.mpr ⟨_, hlonger, readsOff_cons.mpr
    ⟨_, nextToken_append hnext (.inr ⟨_, rfl, hmark⟩) more, readsOff_nil.mpr rfl⟩⟩

end CDeclarations
