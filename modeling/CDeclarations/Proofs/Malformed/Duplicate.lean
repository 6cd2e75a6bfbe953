import CDeclarations.Proofs.Malformed.BaseType

namespace CDeclarations

/-- A word that names a type. Qualifiers are none, as pointers have them too. -/
def Token.isTypeWord (token : Token) : Bool := token.isType || token.isSign

/-- What the qualifiers at the end of tokens stand behind. -/
def lastUnqualified (tokens : List Token) : Option Token :=
  (tokens.rdropWhile Token.isQualifier).getLast?

/-- A qualifier belongs to a pointer if it stands behind its asterisk with nothing but qualifiers
between, and to the type if it stands like that behind a word of it, or anywhere in front of one. -/
def QualifierTarget.Owns (left right : List Token) : QualifierTarget → Prop
  | .pointer =>
    lastUnqualified left = some (.punctuation .asterisk) ∧ ∀ t ∈ right, ¬ t.isTypeWord
  | .type =>
    (∃ t ∈ right, t.isTypeWord) ∨ ∃ t, lastUnqualified left = some t ∧ t.isTypeWord

/-- A qualifier that is given again to its right, with no asterisk between. -/
inductive RepeatFlaw : FlawRule
  | intro {word : Qualifier} {right : List Token} {target : QualifierTarget} :
      .qualifier word ∈ right.takeWhile (· ≠ .punctuation .asterisk) →
      RepeatFlaw (.qualifier word) right (.duplicateQualifier word target)

/-- The same qualifier at two places among tokens. -/
structure QualifierPair where
  word : Qualifier
  left : List Token
  between : List Token
  right : List Token

namespace QualifierPair

/-- What stands to the right of the first of the two. -/
def behind (pair : QualifierPair) : List Token :=
  pair.between ++ .qualifier pair.word :: pair.right

def tokens (pair : QualifierPair) : List Token :=
  pair.left ++ .qualifier pair.word :: pair.behind

/-- There is no asterisk between the two, and no such pair further to the right. -/
structure Rightmost (pair : QualifierPair) : Prop where
  together : .punctuation .asterisk ∉ pair.between
  flawless : Flawless RepeatFlaw pair.behind

def BelongsTo (pair : QualifierPair) (target : QualifierTarget) : Prop :=
  target.Owns pair.left pair.behind ∧
    target.Owns (pair.left ++ .qualifier pair.word :: pair.between) pair.right

/-- The pair is met before any word of the type, and it is no asterisk that it stands behind. -/
def Pointerless (pair : QualifierPair) : Prop :=
  lastUnqualified pair.left ≠ some (.punctuation .asterisk) ∧
    ∀ t ∈ pair.behind, ¬ t.isTypeWord

end QualifierPair

/-- A text that ends by naming what a qualifier qualifies. -/
def EndsNaming (text : String) (target : QualifierTarget) : Prop :=
  ("for " ++ target.name).toList <:+ text.toList

section Places

variable {word : Qualifier} {tokens left more right : List Token} {token : Token}

theorem lastUnqualified_append (h : ∀ t ∈ more, t.isQualifier) :
    lastUnqualified (left ++ more) = lastUnqualified left := by
  have hreverse : ∀ t ∈ more.reverse, t.isQualifier := fun t ht => h t (List.mem_reverse.mp ht)
  rw [lastUnqualified, lastUnqualified, List.rdropWhile, List.rdropWhile, List.reverse_append,
    List.dropWhile_append_of_pos hreverse]

theorem lastUnqualified_of_getLast? (hlast : tokens.getLast? = some token)
    (h : ¬ token.isQualifier) : lastUnqualified tokens = some token := by
  obtain ⟨front, rfl⟩ := List.getLast?_eq_some_iff.mp hlast
  rw [lastUnqualified, List.rdropWhile_concat_neg _ _ _ h, List.getLast?_concat]

theorem exists_eq_append_of_mem_leadingQualifiers (h : word ∈ leadingQualifiers tokens) :
    ∃ between right, tokens = between ++ .qualifier word :: right ∧
      ∀ t ∈ between, t.isQualifier := by
  fun_induction leadingQualifiers tokens with
  | case1 other tokens ih =>
    rcases List.mem_cons.mp h with rfl | hlater
    · exact ⟨[], tokens, rfl, by simp⟩
    · obtain ⟨between, right, rfl, hbetween⟩ := ih hlater
      exact ⟨.qualifier other :: between, right, rfl, List.forall_mem_cons.mpr ⟨rfl, hbetween⟩⟩
  | case2 => cases h

theorem asterisk_not_mem (h : ∀ t ∈ tokens, t.isQualifier) :
    .punctuation .asterisk ∉ tokens := fun hmem => by
  cases h _ hmem

/-- Nothing but qualifiers, asterisks and parentheses: no word of a type. -/
theorem not_isTypeWord_of_isPointerPart (h : token.isPointerPart) : ¬ token.isTypeWord := by
  cases token <;> simp_all [Token.isPointerPart, Token.isTypeWord, Token.isType, Token.isSign]

end Places

namespace QualifierPair

variable {pair : QualifierPair}

/-- A pair belongs to one target at most. -/
theorem BelongsTo.unique {a b : QualifierTarget} (ha : pair.BelongsTo a) (hb : pair.BelongsTo b) :
    a = b := by
  have hexclusive : ¬ (pair.BelongsTo .pointer ∧ pair.BelongsTo .type) := by
    rintro ⟨⟨⟨hpointer, hnone⟩, -⟩, ⟨t, ht, htype⟩ | ⟨t, ht, htype⟩, -⟩
    · exact hnone t ht htype
    · obtain rfl : Token.punctuation .asterisk = t := Option.some.inj (hpointer.symm.trans ht)
      cases htype
  cases a with
  | pointer =>
    cases b with
    | pointer => rfl
    | type => exact absurd ⟨ha, hb⟩ hexclusive
  | type =>
    cases b with
    | pointer => exact absurd ⟨hb, ha⟩ hexclusive
    | type => rfl

/-- In one run of qualifiers with no word of the type behind it, all depends on the asterisk. -/
theorem belongsTo_pointer_iff (hrun : ∀ t ∈ pair.between, t.isQualifier)
    (hnone : ∀ t ∈ pair.behind, ¬ t.isTypeWord) :
    pair.BelongsTo .pointer ↔ ¬ pair.Pointerless := by
  have hmore : ∀ t ∈ Token.qualifier pair.word :: pair.between, t.isQualifier :=
    List.forall_mem_cons.mpr ⟨rfl, hrun⟩
  constructor
  · rintro ⟨⟨hpointer, -⟩, -⟩ ⟨hother, -⟩
    exact hother hpointer
  · intro h
    have hpointer : lastUnqualified pair.left = some (.punctuation .asterisk) := by
      by_contra hother
      exact h ⟨hother, hnone⟩
    refine ⟨⟨hpointer, hnone⟩, ?_, fun t ht => hnone t ?_⟩
    · rw [lastUnqualified_append hmore, hpointer]
    · exact List.mem_append_right _ (List.mem_cons_of_mem _ ht)

end QualifierPair

section Phases

variable {front right : List Token} {word : Qualifier} {name : String} {target : QualifierTarget}

theorem flawless_repeatFlaw {chain : List Token} (h : Flawless PointerFlaw chain) :
    Flawless RepeatFlaw chain := by
  rintro _ right _ hsuffix ⟨hrepeat⟩
  exact h _ right _ hsuffix (.duplicate hrepeat)

/-- Among the pointers, the two are in one run of qualifiers. -/
theorem exists_pair_of_pointerFlaw
    (h : RightmostFlaw PointerFlaw (pointerTokens front) right (.duplicateQualifier word target)) :
    target = .pointer ∧ ∃ pair : QualifierPair, pair.tokens = front ∧ pair.word = word ∧
      pair.Rightmost ∧ (∀ t ∈ pair.between, t.isQualifier) ∧
      ∀ t ∈ pair.behind, ¬ t.isTypeWord := by
  obtain ⟨⟨token, ⟨before, hbefore⟩, hflaw⟩, hflawless⟩ := h
  cases hflaw with
  | duplicate hmem =>
    have hparts : ∀ t ∈ right, t.isPointerPart := fun t ht =>
      isPointerPart_of_mem front t (hbefore ▸
        List.mem_append_right before (List.mem_cons_of_mem _ ht))
    have hfound := (mem_takeWhile_iff hparts hflawless).mp hmem
    obtain ⟨between, behind, rfl, hbetween⟩ := exists_eq_append_of_mem_leadingQualifiers hfound
    refine ⟨rfl, ⟨word, typeTokens front ++ before, between, behind⟩, ?_, rfl,
      ⟨asterisk_not_mem hbetween, flawless_repeatFlaw hflawless⟩, hbetween, fun t ht => ?_⟩
    · show typeTokens front ++ before ++ _ = front
      rw [List.append_assoc, QualifierPair.behind, hbefore, typeTokens_append_pointerTokens]
    · exact not_isTypeWord_of_isPointerPart (hparts t ht)

/-- Where a token of the type is wrong, the last of those to its right is a word of the type. -/
theorem exists_typeWord_of_baseFlaw {found : Qualifiers}
    (hsuffix : .qualifier word :: right <:+ typeTokens front)
    (hflawless : Flawless (BaseFlaw name found) right) :
    ∃ stop, right.getLast? = some stop ∧ stop.isTypeWord ∧ ¬ stop.isQualifier := by
  obtain ⟨before, hbefore⟩ := hsuffix
  cases hlast : right.getLast? with
  | none =>
    obtain rfl := List.getLast?_eq_none_iff.mp hlast
    have hword : (typeTokens front).getLast? = some (.qualifier word) := by
      rw [← hbefore, List.getLast?_concat]
    exact absurd rfl (not_isPointerPart_of_getLast? hword)
  | some stop =>
    obtain ⟨init, rfl⟩ := List.getLast?_eq_some_iff.mp hlast
    have hend : (typeTokens front).getLast? = some stop := by
      rw [← hbefore, ← List.cons_append, ← List.append_assoc, List.getLast?_concat]
    have hstop : ¬ stop.isPointerPart := not_isPointerPart_of_getLast? hend
    have hkind : stop.isQualifier ∨ stop.isSign ∨ stop.isType := by
      by_contra hnot
      exact hflawless stop [] _ (List.suffix_append init [stop]) (.unexpected hnot)
    refine ⟨stop, rfl, ?_⟩
    cases stop <;> simp_all [Token.isPointerPart, Token.isTypeWord, Token.isQualifier,
      Token.isSign, Token.isType]

/-- Up to the next asterisk behind tokens of the type, a qualifier is among them or directly behind
them. -/
theorem mem_takeWhile_append_iff {tokens : List Token}
    (hchain : Flawless PointerFlaw (pointerTokens front))
    (htokens : .punctuation .asterisk ∉ tokens) :
    .qualifier word ∈ (tokens ++ pointerTokens front).takeWhile (· ≠ .punctuation .asterisk) ↔
      .qualifier word ∈ tokens ∨ word ∈ leadingQualifiers (pointerTokens front) := by
  have hall : ∀ t ∈ tokens, decide (t ≠ .punctuation .asterisk) := fun t ht =>
    decide_eq_true fun heq => htokens (heq ▸ ht)
  rw [List.takeWhile_append_of_pos hall, List.mem_append,
    mem_takeWhile_iff (isPointerPart_of_mem front) hchain]

theorem asterisk_not_mem_of_flawless {found : Qualifiers}
    (h : Flawless (BaseFlaw name found) right) : .punctuation .asterisk ∉ right := by
  intro hmem
  obtain ⟨before, later, rfl⟩ := List.append_of_mem hmem
  exact h _ later _ (List.suffix_append before _)
    (.unexpected (by simp [Token.isQualifier, Token.isSign, Token.isType]))

/-- Qualifiers directly behind the type are given again if they stand among its words as well. -/
theorem flawless_repeatFlaw_append (hchain : Flawless PointerFlaw (pointerTokens front))
    (h : Flawless (BaseFlaw name (.ofList (leadingQualifiers (pointerTokens front)))) right) :
    Flawless RepeatFlaw (right ++ pointerTokens front) := by
  induction right with
  | nil => exact flawless_repeatFlaw hchain
  | cons token right ih =>
    obtain ⟨htoken, hright⟩ := flawless_cons.mp h
    refine flawless_cons.mpr ⟨?_, ih hright⟩
    rintro _ ⟨hrepeat⟩
    refine htoken _ (.duplicateQualifier ?_)
    rw [Qualifiers.contains_ofList, decide_eq_true_iff, or_comm]
    exact (mem_takeWhile_append_iff hchain (asterisk_not_mem_of_flawless hright)).mp hrepeat

/-- What a qualifier of the type repeats belongs to the type as well: it is one of its tokens, or
stands in the run of qualifiers directly behind the last of them. -/
theorem exists_repeated_of_baseFlaw {found : Qualifiers} (before : List Token)
    (hsuffix : .qualifier word :: right <:+ typeTokens front)
    (hflawless : Flawless (BaseFlaw name found) right)
    (hrepeat : word ∈ leadingQualifiers (pointerTokens front) ∨ .qualifier word ∈ right) :
    ∃ between behind, between ++ .qualifier word :: behind = right ++ pointerTokens front ∧
      .punctuation .asterisk ∉ between ∧
      QualifierTarget.type.Owns (before ++ .qualifier word :: between) behind := by
  have hasterisk := asterisk_not_mem_of_flawless hflawless
  rcases hrepeat with hleading | hmem
  · -- There may be no word of the type behind the run, but the run stands directly behind one.
    obtain ⟨stop, hlast, hword, hstop⟩ := exists_typeWord_of_baseFlaw hsuffix hflawless
    obtain ⟨run, behind, hrun, hqualifiers⟩ := exists_eq_append_of_mem_leadingQualifiers hleading
    refine ⟨right ++ run, behind, ?_, ?_, .inr ⟨stop, ?_, hword⟩⟩
    · rw [List.append_assoc, ← hrun]
    · rw [List.mem_append, not_or]
      exact ⟨hasterisk, asterisk_not_mem hqualifiers⟩
    · rw [← List.cons_append, ← List.append_assoc, lastUnqualified_append hqualifiers]
      refine lastUnqualified_of_getLast? ?_ hstop
      rw [List.getLast?_append, List.getLast?_cons, hlast]
      rfl
  · obtain ⟨between, later, rfl⟩ := List.append_of_mem hmem
    have hlater : .qualifier word :: later <:+ typeTokens front :=
      ((List.suffix_append between _).trans (List.suffix_cons _ _)).trans hsuffix
    have hclean : Flawless (BaseFlaw name found) later :=
      hflawless.of_suffix ((List.suffix_cons _ later).trans (List.suffix_append between _))
    obtain ⟨stop, hlast, hword, -⟩ := exists_typeWord_of_baseFlaw hlater hclean
    have hstop : stop ∈ later ++ pointerTokens front :=
      List.mem_append_left _ (List.mem_of_getLast? hlast)
    refine ⟨between, later ++ pointerTokens front, by simp, fun h => hasterisk ?_,
      .inl ⟨stop, hstop, hword⟩⟩
    exact List.mem_append_left _ h

/-- In the type, both of the two belong to it. -/
theorem exists_pair_of_baseFlaw (hchain : Flawless PointerFlaw (pointerTokens front))
    (h : RightmostFlaw (BaseFlaw name (.ofList (leadingQualifiers (pointerTokens front))))
      (typeTokens front) right (.duplicateQualifier word target)) :
    target = .type ∧ ∃ pair : QualifierPair, pair.tokens = front ∧ pair.word = word ∧
      pair.Rightmost ∧ pair.BelongsTo .type ∧ ∃ t ∈ pair.behind, t.isTypeWord := by
  obtain ⟨⟨token, hsuffix, hflaw⟩, hflawless⟩ := h
  cases hflaw with
  | duplicateQualifier hfound =>
    rw [Qualifiers.contains_ofList, decide_eq_true_iff] at hfound
    obtain ⟨stop, hlast, hword, -⟩ := exists_typeWord_of_baseFlaw hsuffix hflawless
    obtain ⟨before, hbefore⟩ := hsuffix
    obtain ⟨between, behind, hbehind, htogether, howned⟩ :=
      exists_repeated_of_baseFlaw before ⟨before, hbefore⟩ hflawless hfound
    let pair : QualifierPair := ⟨word, before, between, behind⟩
    have hpair : pair.behind = right ++ pointerTokens front := hbehind
    have hstop : ∃ t ∈ pair.behind, t.isTypeWord :=
      ⟨stop, hpair ▸ List.mem_append_left _ (List.mem_of_getLast? hlast), hword⟩
    refine ⟨rfl, pair, ?_, rfl, ⟨htogether, ?_⟩, ⟨.inl hstop, howned⟩, hstop⟩
    · show before ++ .qualifier word :: pair.behind = front
      rw [hpair, ← List.cons_append, ← List.append_assoc, hbefore, typeTokens_append_pointerTokens]
    · rw [hpair]
      exact flawless_repeatFlaw_append hchain hflawless

theorem Specifiers.conclude_ne_duplicateQualifier (known : Specifiers) :
    (known.conclude name).2 ≠ .error (.duplicateQualifier word target) := by
  unfold Specifiers.conclude
  split
  · simp
  · simp
  · split_ifs <;> simp

theorem exists_rightmostFlaw_of_unwindBase {found : Qualifiers} {tokens : List Token}
    (h : (unwindBase name found tokens.reverse).2 = .error (.duplicateQualifier word target)) :
    ∃ right,
      RightmostFlaw (BaseFlaw name found) tokens right (.duplicateQualifier word target) := by
  rcases flawless_or_exists_rightmostFlaw (BaseFlaw name found) tokens with
    hflawless | ⟨right, e, hflaw⟩
  · obtain ⟨known, -, hbase⟩ := exists_unwindBase_of_flawless hflawless
    rw [hbase] at h
    exact absurd h known.conclude_ne_duplicateQualifier
  · rw [unwindBase_of_rightmostFlaw hflaw] at h
    exact ⟨right, Except.error.inj h ▸ hflaw⟩

theorem pointersFault?_ne_duplicateQualifier (front : List Token) (closing : Nat) :
    pointersFault? front closing ≠ some (.duplicateQualifier word target) := by
  unfold pointersFault?
  dsimp only
  split
  · simp
  · split_ifs <;> simp

/-- Pointers with which nothing is wrong leave it to the type to give a qualifier twice. -/
theorem unwindBase_of_flawless_pointers {closing : Nat}
    (hchain : Flawless PointerFlaw (pointerTokens front))
    (h : (unwind name closing front.reverse).2 = .error (.duplicateQualifier word target)) :
    (unwindBase name (.ofList (leadingQualifiers (pointerTokens front)))
      (typeTokens front).reverse).2 = .error (.duplicateQualifier word target) := by
  have hphase := unwindPointers_of_flawless closing hchain
  cases hfault : pointersFault? front closing with
  | some e =>
    rw [hfault] at hphase
    rw [unwind_of_pointers_error hphase] at h
    rw [Except.error.inj h] at hfault
    exact absurd hfault (pointersFault?_ne_duplicateQualifier front closing)
  | none =>
    rw [hfault] at hphase
    exact (unwind_eq_error_iff hphase).mp h

/-- A qualifier is found to be given twice where it belongs to the type, or before any word of the
type has been met. -/
theorem exists_pair_of_unwind {closing : Nat}
    (h : (unwind name closing front.reverse).2 = .error (.duplicateQualifier word target)) :
    ∃ pair : QualifierPair, pair.tokens = front ∧ pair.word = word ∧ pair.Rightmost ∧
      (target = .pointer ∧ (∀ t ∈ pair.between, t.isQualifier) ∧
          (∀ t ∈ pair.behind, ¬ t.isTypeWord) ∨
        target = .type ∧ pair.BelongsTo .type ∧ ∃ t ∈ pair.behind, t.isTypeWord) := by
  rcases flawless_or_exists_rightmostFlaw PointerFlaw (pointerTokens front) with
    hchain | ⟨right, e, hflaw⟩
  · obtain ⟨right, hflaw⟩ :=
      exists_rightmostFlaw_of_unwindBase (unwindBase_of_flawless_pointers hchain h)
    obtain ⟨htarget, pair, htokens, hword, hrightmost, howned, htype⟩ :=
      exists_pair_of_baseFlaw hchain hflaw
    exact ⟨pair, htokens, hword, hrightmost, .inr ⟨htarget, howned, htype⟩⟩
  · rw [unwind_of_pointers_error (unwindPointers_of_rightmostFlaw hflaw)] at h
    cases h
    obtain ⟨htarget, pair, htokens, hword, hrightmost, hrun, hnone⟩ :=
      exists_pair_of_pointerFlaw hflaw
    exact ⟨pair, htokens, hword, hrightmost, .inl ⟨htarget, hrun, hnone⟩⟩

end Phases

theorem endsNaming_iff {word : Qualifier} {target named : QualifierTarget} :
    EndsNaming (SyntaxError.duplicateQualifier word target).message named ↔ target = named := by
  unfold EndsNaming
  cases word <;> cases target <;> cases named <;> decide

/-- The text about a qualifier that is given twice names what both of the two belong to, unless
they are met before any word of the type and do not stand behind an asterisk. It names a pointer
then, whatever they stand behind. -/
theorem describe_duplicateQualifier {capacity : Nat} {s : ByteStream} {sink : Sink}
    {word : Qualifier} {target : QualifierTarget}
    (h : (readDeclaration capacity s sink).result =
      .error (.malformed (.duplicateQualifier word target)))
    (report : Option Report) :
    let text := "duplicate " ++ word.spelling ++ " qualifier for " ++ target.name
    (describe capacity s sink report).status = .malformed ∧
    (describe capacity s sink report).report =
      report.map (fun _ => ⟨.ok, "", .malformed, text⟩) ∧
    ∃ (pair : QualifierPair) (name : String) (closing : Nat) (rest : ByteStream),
      ReadsStatement capacity s pair.tokens name closing rest ∧ pair.word = word ∧
      pair.Rightmost ∧
      ((∀ owner, EndsNaming text owner ↔ pair.BelongsTo owner) ↔ ¬ pair.Pointerless) ∧
      (pair.Pointerless → EndsNaming text .pointer) := by
  intro text
  have hends : ∀ {owner}, EndsNaming text owner ↔ target = owner := endsNaming_iff
  have hreport : (report.getD .clear).recordResult
      (.error (.malformed (.duplicateQualifier word target))) = ⟨.ok, "", .malformed, text⟩ :=
    Report.recordResult_malformed _ (SyntaxError.duplicateQualifier_fits word target)
  refine ⟨?_, ?_, ?_⟩
  · rw [describe, h, hreport]
  · rw [describe, h, hreport]
  · obtain ⟨front, name, closing, rest, hreads, hunwind⟩ := exists_readsStatement h (by simp)
    obtain ⟨pair, rfl, hword, hrightmost, hcases⟩ := exists_pair_of_unwind hunwind
    -- A pair has one owner at most, so all that counts is whether the target named is one.
    have hnamed : pair.BelongsTo target ↔ ¬ pair.Pointerless := by
      obtain ⟨rfl, hrun, hnone⟩ | ⟨rfl, howned, t, ht, htype⟩ := hcases
      · exact QualifierPair.belongsTo_pointer_iff hrun hnone
      · exact iff_of_true howned fun hpointerless => hpointerless.2 t ht htype
    refine ⟨pair, name, closing, rest, hreads, hword, hrightmost, ?_, fun hpointerless => ?_⟩
    · rw [← hnamed]
      constructor
      · exact fun hall => (hall target).mp (hends.mpr rfl)
      · exact fun howned owner =>
          hends.trans ⟨fun heq => heq ▸ howned, fun hother => howned.unique hother⟩
    · obtain ⟨rfl, -, -⟩ | ⟨rfl, -, t, ht, htype⟩ := hcases
      · exact hends.mpr rfl
      · exact absurd htype (hpointerless.2 t ht)

/-- Two qualifiers of the type, one on either side of it. -/
theorem describe_duplicateQualifier_aroundType :
    let s := .ofBytes (Text.utf8 "const int const *p;")
    (readDeclaration 20 s .unbounded).result =
        .error (.malformed (.duplicateQualifier .const .type)) ∧
      ∃ (pair : QualifierPair) (name : String) (closing : Nat) (rest : ByteStream),
        ReadsStatement 20 s pair.tokens name closing rest ∧ pair.word = .const ∧
        pair.BelongsTo .type := by
  intro s
  have hresult : (readDeclaration 20 s .unbounded).result =
      .error (.malformed (.duplicateQualifier .const .type)) := by decide +kernel
  obtain ⟨-, -, pair, name, closing, rest, hreads, hword, -, howner, hpointer⟩ :=
    describe_duplicateQualifier hresult (some .clear)
  have hnot : ¬ pair.Pointerless := fun h =>
    absurd (hpointer h) (by unfold EndsNaming; decide)
  exact ⟨hresult, pair, name, closing, rest, hreads, hword,
    (howner.mpr hnot .type).mp (by unfold EndsNaming; decide)⟩

/-- There is no pointer, and both qualifiers stand directly behind the type. -/
theorem describe_duplicateQualifier_behindType :
    let s := .ofBytes (Text.utf8 "int const const x;")
    let pair : QualifierPair := ⟨.const, [.type (.basic .int)], [], []⟩
    ReadsStatement 20 s pair.tokens "x" 0 (.ofBytes []) ∧ pair.Rightmost ∧
      pair.BelongsTo .type ∧ ¬ pair.BelongsTo .pointer ∧
      (describe 20 s .unbounded (some .clear)).report =
        some ⟨.ok, "", .malformed, "duplicate const qualifier for pointer"⟩ := by
  intro s pair
  have hreads : ReadsStatement 20 s pair.tokens "x" 0 (.ofBytes []) :=
    ⟨by decide +kernel, by simp [pair, QualifierPair.tokens, QualifierPair.behind], by decide⟩
  have hrightmost : pair.Rightmost := by
    refine ⟨by decide, flawless_cons.mpr ⟨?_, flawless_nil⟩⟩
    rintro _ ⟨hrepeat⟩
    exact absurd hrepeat (by decide)
  have htype : pair.BelongsTo .type :=
    ⟨.inr ⟨_, rfl, rfl⟩, .inr ⟨_, rfl, rfl⟩⟩
  have hpointer : ¬ pair.BelongsTo .pointer := fun h => by
    cases h.unique htype
  exact ⟨hreads, hrightmost, htype, hpointer, by decide +kernel⟩

end CDeclarations
