import CDeclarations.Proofs.Declaration.Unambiguous

namespace CDeclarations

/-- The next tokens are no more than there is room for, none of them a name, and then a name. -/
def ReadsName (capacity : Nat) (s : ByteStream) (name : String) : Prop :=
  ∃ front rest, ReadsOff s (front ++ [.identifier name]) rest ∧
    (∀ word, Token.identifier word ∉ front) ∧ front.length ≤ capacity

/-- A beginning of a text, which is all of it exactly when nothing has gone wrong. -/
structure SaidOf (whole said : List UInt8) (ok : Prop) : Prop where
  begins : said <+: whole
  eq_iff : said = whole ↔ ok

section SaidOf

variable {whole said : List UInt8} {ok : Prop}

theorem SaidOf.all (whole : List UInt8) (h : ok) : SaidOf whole whole ok :=
  ⟨List.prefix_rfl, iff_of_true rfl h⟩

theorem SaidOf.nothing (hwhole : whole ≠ []) (h : ¬ ok) : SaidOf whole [] ok :=
  ⟨List.nil_prefix, iff_of_false hwhole.symm h⟩

theorem SaidOf.behind (front : List UInt8) (h : SaidOf whole said ok) :
    SaidOf (front ++ whole) (front ++ said) ok :=
  ⟨(List.prefix_append_right_inj front).mpr h.begins,
    (List.append_right_inj front).trans h.eq_iff⟩

theorem SaidOf.congr {ok' : Prop} (h : SaidOf whole said ok) (hok : ok ↔ ok') :
    SaidOf whole said ok' := ⟨h.begins, h.eq_iff.trans hok⟩

theorem Sink.taken_isPrefix (sink : Sink) (bytes : List UInt8) :
    (sink.write bytes).taken <+: bytes := by
  obtain ⟨_ | room, flushes⟩ := sink
  · exact List.prefix_rfl
  · exact List.take_prefix room bytes

theorem Sink.taken_eq_iff {sink : Sink} {bytes : List UInt8} :
    (sink.write bytes).taken = bytes ↔ (sink.write bytes).complete := by
  refine ⟨fun h => ?_, taken_eq⟩
  obtain ⟨_ | room, flushes⟩ := sink
  · rfl
  · refine decide_eq_true ?_
    have hlength : min room bytes.length = bytes.length := by
      rw [← List.length_take]
      exact congrArg List.length h
    omega

/-- A sink cuts what is said, and that is one more thing to go wrong. -/
theorem SaidOf.written (h : SaidOf whole said ok) (sink : Sink) :
    SaidOf whole (sink.write said).taken (ok ∧ (sink.write said).complete) := by
  have htaken := sink.taken_isPrefix said
  refine ⟨htaken.trans h.begins, ?_⟩
  rw [← h.eq_iff, ← Sink.taken_eq_iff]
  constructor
  · intro heq
    have hsaid : said = whole := h.begins.eq_of_length_le (heq ▸ htaken.length_le)
    exact ⟨hsaid, heq.trans hsaid.symm⟩
  · intro hboth
    exact hboth.2.trans hboth.1

end SaidOf

section Phrases

variable {name : String} {tokens : List Token}

theorem Phrase.bytes_type_ne_nil (specifier : TypeSpecifier) : bytes [.type specifier] ≠ [] := by
  have hend : bytes [.type specifier] =
      Text.utf8 (" " ++ specifier.spelling) ++ Text.utf8 "\n" := by
    rw [← Text.utf8_append]
    exact List.append_nil _
  rw [hend]
  exact List.append_ne_nil_of_right_ne_nil _ (by decide)

theorem BaseType.bytes_phrases_ne_nil (base : BaseType) : Phrase.bytes base.phrases ≠ [] := by
  rw [BaseType.phrases, Phrase.bytes_append]
  exact List.append_ne_nil_of_right_ne_nil _ (Phrase.bytes_type_ne_nil base.specifier)

/-- Of the type all is said, or the qualifiers alone, or nothing. -/
theorem Specifiers.exists_saidOf_conclude (name : String) {known : Specifiers}
    (htype : ∀ specifier, known.type = some specifier → (Token.type specifier).IsReadable) :
    ∃ base : BaseType, (Token.type base.specifier).IsReadable ∧
      SaidOf (Phrase.bytes base.phrases) (Phrase.bytes (known.conclude name).1)
        (∃ found, (known.conclude name).2 = .ok found) := by
  obtain ⟨set, sign, type⟩ := known
  cases type with
  | none =>
    have hfails : ¬ ∃ found, (conclude name ⟨set, sign, none⟩).2 = .ok found := by simp [conclude]
    exact ⟨⟨.empty, none, .basic .int⟩, trivial, .nothing (BaseType.bytes_phrases_ne_nil _) hfails⟩
  | some specifier =>
    have hspecifier := htype specifier rfl
    cases sign with
    | none => exact ⟨⟨set, none, specifier⟩, hspecifier, .all _ ⟨_, rfl⟩⟩
    | some word =>
      by_cases hintegral : specifier.isIntegral
      · rw [conclude_of_isIntegral hintegral]
        exact ⟨⟨set, some word, specifier⟩, hspecifier, .all _ ⟨_, rfl⟩⟩
      · rw [conclude_of_not_isIntegral hintegral]
        exact ⟨⟨set, none, specifier⟩, hspecifier,
          .behind _ (.nothing (Phrase.bytes_type_ne_nil specifier) (by simp))⟩

theorem exists_saidOf_unwindBase (name : String) (found : Qualifiers)
    (h : ∀ t ∈ tokens, t.IsReadable) :
    ∃ base : BaseType, (Token.type base.specifier).IsReadable ∧
      SaidOf (Phrase.bytes base.phrases) (Phrase.bytes (unwindBase name found tokens).1)
        (∃ base, (unwindBase name found tokens).2 = .ok base) := by
  unfold unwindBase
  cases hfold : tokens.foldlM (Specifiers.add name) ⟨found, none, none⟩ with
  | error e =>
    exact ⟨⟨.empty, none, .basic .int⟩, trivial,
      .nothing (BaseType.bytes_phrases_ne_nil _) (by simp)⟩
  | ok known =>
    refine Specifiers.exists_saidOf_conclude name fun specifier htype => ?_
    have hperm := Specifiers.foldlM_add_eq_ok_iff.mp hfold
    have hmem := hperm.mem_iff.mp (Specifiers.mem_tokens_type.mpr htype)
    rcases List.mem_append.mp hmem with hmem | hfound
    · exact h _ hmem
    · cases Specifiers.mem_tokens_type.mp hfound

/-- What is left of the tokens behind the pointers were the last of them. -/
theorem suffix_of_unwindPointers {right left : Nat} {found found' : Qualifiers}
    {rest : List Token} {pointers : List Qualifiers}
    (h : unwindPointers right left found tokens = (pointers, .ok (found', rest))) :
    rest <:+ tokens := by
  fun_induction unwindPointers right left found tokens generalizing pointers
  case case3 ih => exact (ih h).trans (List.suffix_cons _ _)
  case case4 ih => exact (ih h).trans (List.suffix_cons _ _)
  case case6 found tokens later result hunwind ih =>
    obtain ⟨rfl, rfl⟩ : found :: later = pointers ∧ result = .ok (found', rest) := Prod.mk.inj h
    exact (ih hunwind).trans (List.suffix_cons _ _)
  case case9 =>
    cases h
    exact List.suffix_rfl
  all_goals cases h

theorem Declaration.utf8_sentence (name : String) (pointers : List Qualifiers) (base : BaseType) :
    Text.utf8 (sentence ⟨name, pointers, base⟩) =
      Text.utf8 (name ++ ":") ++
        (Phrase.bytes (pointers.map .pointer) ++ Phrase.bytes base.phrases) := by
  rw [← Declaration.bytes_phrases, ← Phrase.bytes_append]
  rfl

/-- Where only pointers are said, some type is still to come. -/
theorem exists_saidOf_pointers (hname : IsName name) (pointers : List Qualifiers) {ok : Prop}
    (h : ¬ ok) :
    ∃ d : Declaration, d.name = name ∧ d.IsReadable ∧
      SaidOf (Text.utf8 d.sentence)
        (Text.utf8 (name ++ ":") ++ Phrase.bytes (pointers.map .pointer)) ok := by
  have hnothing : SaidOf (Phrase.bytes (BaseType.phrases ⟨.empty, none, .basic .int⟩)) [] ok :=
    .nothing (BaseType.bytes_phrases_ne_nil _) h
  have hsaid := (hnothing.behind (Phrase.bytes (pointers.map .pointer))).behind
    (Text.utf8 (name ++ ":"))
  rw [← Declaration.utf8_sentence, List.append_nil] at hsaid
  exact ⟨⟨name, pointers, ⟨.empty, none, .basic .int⟩⟩, rfl, ⟨hname, trivial⟩, hsaid⟩

/-- Behind the name, pointers are said as they are understood, and then the type. -/
theorem exists_saidOf_unwind (hname : IsName name) (right : Nat) (h : ∀ t ∈ tokens, t.IsReadable) :
    ∃ d : Declaration, d.name = name ∧ d.IsReadable ∧
      SaidOf (Text.utf8 d.sentence)
        (Text.utf8 (name ++ ":") ++ Phrase.bytes (unwind name right tokens).1)
        (∃ found, (unwind name right tokens).2 = .ok found) := by
  unfold unwind
  cases hpointers : unwindPointers right 0 .empty tokens with
  | mk pointers result =>
    cases result with
    | error e => exact exists_saidOf_pointers hname pointers (by simp)
    | ok behind =>
      obtain ⟨found, rest⟩ := behind
      have hsuffix := suffix_of_unwindPointers hpointers
      obtain ⟨base, hbase, hsaid⟩ :=
        exists_saidOf_unwindBase name found fun t ht => h t (hsuffix.mem ht)
      have hok : (∃ base, (unwindBase name found rest).2 = .ok base) ↔
          ∃ d : Declaration, (unwindBase name found rest).2.map (⟨name, pointers, ·⟩) = .ok d := by
        cases (unwindBase name found rest).2 <;> simp [Except.map]
      have hwhole := ((hsaid.congr hok).behind (Phrase.bytes (pointers.map .pointer))).behind
        (Text.utf8 (name ++ ":"))
      rw [← Declaration.utf8_sentence] at hwhole
      dsimp only
      rw [Phrase.bytes_append]
      exact ⟨⟨name, pointers, base⟩, rfl, ⟨hname, hbase⟩, hwhole⟩

/-- Of a name that no semicolon follows nothing more is said. -/
theorem exists_saidOf_behindName (hname : IsName name) {stack : TokenStack}
    (h : ∀ t ∈ stack.tokens, t.IsReadable) (outcome : Except DeclarationError (Nat × Token)) :
    ∃ d : Declaration, d.name = name ∧ d.IsReadable ∧
      SaidOf (Text.utf8 d.sentence)
        (Text.utf8 (name ++ ":") ++ (behindName name stack outcome).1)
        (∃ found, (behindName name stack outcome).2 = .ok found) := by
  rcases outcome with e | ⟨closing, token⟩
  · exact exists_saidOf_pointers hname [] (by simp [behindName])
  · by_cases htoken : token = .punctuation .semicolon
    · obtain ⟨d, hd, hreadable, hsaid⟩ := exists_saidOf_unwind hname closing h
      have hok : (∃ found, (unwind name closing stack.tokens).2 = .ok found) ↔
          ∃ found, (unwind name closing stack.tokens).2.mapError DeclarationError.malformed =
            .ok found := by
        cases (unwind name closing stack.tokens).2 <;> simp [Except.mapError]
      rw [behindName, if_neg (not_not_intro htoken)]
      exact ⟨d, hd, hreadable, hsaid.congr hok⟩
    · rw [behindName_of_other htoken]
      exact exists_saidOf_pointers hname [] (by simp)

end Phrases

section Line

theorem Text.isAscii_spaced {words : List String} (h : ∀ word ∈ words, IsAscii word) :
    IsAscii (spaced words) := by
  induction words with
  | nil => decide
  | cons word words ih =>
    obtain ⟨hword, hwords⟩ := List.forall_mem_cons.mp h
    have hcons : spaced (word :: words) = " " ++ word ++ spaced words := by simp [spaced]
    rw [hcons]
    exact isAscii_append.mpr ⟨isAscii_append.mpr ⟨by decide, hword⟩, ih hwords⟩

variable {d : Declaration} {said : List UInt8} {ok : Prop}

theorem Declaration.IsReadable.isAscii_sentence (h : d.IsReadable) : Text.IsAscii d.sentence := by
  have hwords : ∀ word ∈ d.words, Text.IsAscii word := fun word hword =>
    (h.isWord_of_mem_words word hword).isAscii
  have hname : Text.IsAscii (d.name ++ ":") :=
    Text.isAscii_append.mpr ⟨h.1.isWord.isAscii, by decide⟩
  rw [sentence_eq]
  exact Text.isAscii_append.mpr
    ⟨Text.isAscii_append.mpr ⟨hname, Text.isAscii_spaced hwords⟩, by decide⟩

/-- The one newline among the bytes of a sentence is the last of them. -/
theorem Declaration.IsReadable.exists_line (h : d.IsReadable) :
    ∃ words, '\n'.toUInt8 ∉ words ∧ Text.utf8 d.sentence = words ++ ['\n'.toUInt8] := by
  obtain ⟨words, hnewline, hsentence⟩ := isLine_sentence h.1.isWord h.2.isWorded
  have hascii := h.isAscii_sentence
  rw [Text.utf8_injective hsentence] at hascii
  have hwords := (Text.isAscii_append.mp hascii).1
  refine ⟨Text.utf8 words, hwords.toUInt8_notMem (by decide) hnewline, ?_⟩
  rw [hsentence, Text.utf8_append]
  rfl

/-- So a beginning of a sentence has a newline only if it is all of it. -/
theorem SaidOf.newline_mem_iff (h : d.IsReadable) (hsaid : SaidOf (Text.utf8 d.sentence) said ok) :
    '\n'.toUInt8 ∈ said ↔ ok := by
  obtain ⟨words, hnewline, hsentence⟩ := h.exists_line
  have hbegins := hsaid.begins
  rw [← hsaid.eq_iff]
  rw [hsentence] at hbegins ⊢
  constructor
  · intro hmem
    rcases List.prefix_concat_iff.mp hbegins with hall | hless
    · exact hall
    · exact absurd (hless.mem hmem) hnewline
  · intro hall
    rw [hall]
    exact List.mem_append_right _ List.mem_cons_self

end Line

section Described

variable {capacity : Nat} {s : ByteStream} {name : String}

/-- Without a name nothing is said and no declaration is read. -/
theorem readDeclaration_of_no_name (h : ∀ name, ¬ ReadsName capacity s name) (sink : Sink) :
    (readDeclaration capacity s sink).said = [] ∧
      ∀ d, (readDeclaration capacity s sink).result ≠ .ok d := by
  cases hname : readToName (.withCapacity capacity) s with
  | mk outcome between =>
    rcases outcome with e | ⟨name, stack⟩
    · rw [readDeclaration_of_name_error hname]
      exact ⟨rfl, nofun⟩
    · obtain ⟨front, hfront, hnames, hroom, -⟩ := readToName_eq_ok_iff.mp hname
      exact absurd ⟨front, between, hfront, hnames, hroom⟩ (h name)

/-- With a name, what is said is a beginning of a sentence about it. -/
theorem ReadsName.exists_saidOf (h : ReadsName capacity s name) (sink : Sink)
    (report : Option Report) :
    ∃ d : Declaration, d.name = name ∧ d.IsReadable ∧
      SaidOf (Text.utf8 d.sentence) (describe capacity s sink report).said
        ((describe capacity s sink report).status = .ok) := by
  obtain ⟨front, between, hfront, hnames, hroom⟩ := h
  have hreadable := hfront.isReadable
  have hname : IsName name := (hreadable (.identifier name) (by simp)).1
  let stack : TokenStack := ⟨front.reverse ++ [], capacity - front.length⟩
  have hstack : ∀ t ∈ stack.tokens, t.IsReadable := fun t ht =>
    hreadable t (List.mem_append_left _ (by simpa [stack] using ht))
  obtain ⟨d, hd, hdreadable, hsaid⟩ := exists_saidOf_behindName hname hstack (readClosing 0 between).1
  have hfull := readDeclaration_unbounded
    (readToName_eq_ok_iff.mpr ⟨front, hfront, hnames, hroom, rfl⟩)
  have hwritten : (describe capacity s sink report).said =
      (sink.write (readDeclaration capacity s .unbounded).said).taken :=
    (readDeclaration_inStep capacity s sink).said
  rw [hwritten, describe_status_eq_ok_iff, hfull]
  exact ⟨d, hd, hdreadable, hsaid.written sink⟩

end Described

/-- What is said of a declaration has a newline exactly when it has been read, and then at its end
and nowhere else. Once its name is known it is a beginning of a sentence about that name, and all of
the sentence only if nothing has gone wrong, neither with the input nor with the output. Without a
name nothing is said. -/
theorem describe_said_line (capacity : Nat) (s : ByteStream) (sink : Sink)
    (report : Option Report) :
    let d := describe capacity s sink report
    ('\n'.toUInt8 ∈ d.said ↔ d.status = .ok) ∧
    (d.status = .ok → ∃ words, '\n'.toUInt8 ∉ words ∧ d.said = words ++ ['\n'.toUInt8]) ∧
    (∀ name, ReadsName capacity s name →
      ∃ declaration : Declaration, declaration.name = name ∧ declaration.IsReadable ∧
        d.said <+: Text.utf8 declaration.sentence ∧
        (d.said = Text.utf8 declaration.sentence ↔ d.status = .ok)) ∧
    ((∀ name, ¬ ReadsName capacity s name) → d.said = []) := by
  intro d
  by_cases hnamed : ∃ name, ReadsName capacity s name
  · obtain ⟨name, hname⟩ := hnamed
    obtain ⟨declaration, -, hreadable, hsaid⟩ := hname.exists_saidOf sink report
    refine ⟨hsaid.newline_mem_iff hreadable, fun hok => ?_, fun name hname => ?_, fun hnone => ?_⟩
    · obtain ⟨words, hnewline, hsentence⟩ := hreadable.exists_line
      exact ⟨words, hnewline, (hsaid.eq_iff.mpr hok).trans hsentence⟩
    · obtain ⟨declaration, hdeclares, hreadable, hsaid⟩ := hname.exists_saidOf sink report
      exact ⟨declaration, hdeclares, hreadable, hsaid.begins, hsaid.eq_iff⟩
    · exact absurd hname (hnone name)
  · have hnone := not_exists.mp hnamed
    obtain ⟨hsaid, hfails⟩ := readDeclaration_of_no_name hnone sink
    have hsilent : d.said = [] := hsaid
    have hstatus : d.status ≠ .ok := by
      intro hok
      obtain ⟨found, hfound⟩ := (Report.status_recordResult_eq_ok_iff _ _).mp hok
      exact hfails found hfound
    refine ⟨?_, fun hok => absurd hok hstatus, fun name hname => absurd hname (hnone name),
      fun _ => hsilent⟩
    rw [hsilent]
    exact iff_of_false List.not_mem_nil hstatus

/-- The sign does not go with the type, which is found when the qualifiers of the type have been
said, and the output is lost in the middle of them. -/
theorem describe_said_line_invalidSign :
    let s := .ofBytes (Text.utf8 "const volatile signed struct t *x;")
    let full := describe 20 s .unbounded none
    let cut := describe 20 s (.bounded 20) none
    ReadsName 20 s "x" ∧ full.status = .malformed ∧ cut.status = .outputFailed ∧
      full.said = Text.utf8 "x: pointer to const volatile" ∧
      cut.said = Text.utf8 "x: pointer to const " ∧ '\n'.toUInt8 ∉ full.said ∧
      ∃ declaration : Declaration, declaration.name = "x" ∧
        cut.said <+: Text.utf8 declaration.sentence := by
  intro s full cut
  have hname : ReadsName 20 s "x" :=
    ⟨[.qualifier .const, .qualifier .volatile, .sign .signed, .type (.tagged .struct "t"),
      .punctuation .asterisk], ⟨some ';'.toUInt8, []⟩, by decide +kernel, by simp, by decide⟩
  have hstatus : full.status = .malformed := by decide +kernel
  have hnewline : '\n'.toUInt8 ∉ full.said := fun hmem => by
    have hok := (describe_said_line 20 s .unbounded none).1.mp hmem
    rw [hstatus] at hok
    cases hok
  obtain ⟨declaration, hdeclares, -, hbegins, -⟩ :=
    (describe_said_line 20 s (.bounded 20) none).2.2.1 "x" hname
  exact ⟨hname, hstatus, by decide +kernel, by decide +kernel, by decide +kernel, hnewline,
    declaration, hdeclares, hbegins⟩

end CDeclarations
