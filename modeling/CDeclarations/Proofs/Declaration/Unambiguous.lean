import CDeclarations.Proofs.Declaration.Limit
import CDeclarations.Proofs.Grammar.Sentence
import Mathlib.Data.List.Basic

namespace CDeclarations

section Words

/-- Words with a blank in front of each. -/
def Text.spaced (words : List String) : String := String.join (words.map (" " ++ ·))

theorem Text.spaced_append (a b : List String) : spaced (a ++ b) = spaced a ++ spaced b := by
  simp [spaced]

def Qualifiers.words (set : Qualifiers) : List String := set.tokens.map Token.spelling

def TypeSpecifier.words : TypeSpecifier → List String
  | .basic word => [word.spelling]
  | .tagged kind name => [kind.spelling, name]

def BaseType.words (base : BaseType) : List String :=
  base.qualifiers.words ++ ((base.sign.map Sign.spelling).toList ++ base.specifier.words)

/-- The words behind the name when a declaration is said in English. -/
def Declaration.words (d : Declaration) : List String :=
  d.pointers.flatMap (fun set => set.words ++ ["pointer", "to"]) ++ d.base.words

open Text

theorem Qualifiers.text_eq (set : Qualifiers) : set.text = spaced set.words := by
  obtain ⟨c, v⟩ := set
  cases c <;> cases v <;> rfl

theorem TypeSpecifier.spelling_eq (specifier : TypeSpecifier) :
    " " ++ specifier.spelling = spaced specifier.words := by
  cases specifier with
  | basic word => simp [spaced, words, spelling]
  | tagged kind name => simp [spaced, words, spelling, String.append_assoc]

theorem spaced_pointers (sets : List Qualifiers) :
    String.join (sets.map fun set => set.text ++ " pointer to") =
      spaced (sets.flatMap fun set => set.words ++ ["pointer", "to"]) := by
  induction sets with
  | nil => rfl
  | cons set sets ih =>
    have hpointer : " pointer to" = spaced ["pointer", "to"] := rfl
    rw [List.map_cons, String.join_cons, ih, List.flatMap_cons, spaced_append, spaced_append,
      set.text_eq, hpointer]

theorem Declaration.sentence_eq (d : Declaration) :
    d.sentence = d.name ++ ":" ++ spaced d.words ++ "\n" := by
  have hsign : (d.base.sign.elim "" fun word => " " ++ word.spelling) =
      spaced (d.base.sign.map Sign.spelling).toList := by
    cases d.base.sign <;> simp [spaced]
  rw [words, BaseType.words, spaced_append, spaced_append, spaced_append, ← spaced_pointers,
    ← Qualifiers.text_eq, ← hsign, ← TypeSpecifier.spelling_eq, sentence]
  simp only [String.append_assoc]

end Words

section Decoder

/-- The type that words name. -/
def TypeSpecifier.ofWords? : List String → Option TypeSpecifier
  | [word] =>
    match Keyword.ofSpelling? word with
    | some (.basic type) => some (.basic type)
    | _ => none
  | [word, name] =>
    match Keyword.ofSpelling? word with
    | some (.tagged kind) => some (.tagged kind name)
    | _ => none
  | _ => none

/-- The pointers and the type that words tell, `found` are the qualifiers met since the last
pointer. A word in this place that is no keyword is `pointer`, with `to` behind it. Names stand
behind `struct` or `enum` only, where any word is a name. -/
def decodeWords? (found : Qualifiers) : List String → Option (List Qualifiers × BaseType)
  | [] => none
  | word :: words =>
    match Keyword.ofSpelling? word with
    | some (.qualifier word) => decodeWords? (found.insert word) words
    | some (.sign word) =>
      (TypeSpecifier.ofWords? words).map fun specifier => ([], ⟨found, some word, specifier⟩)
    | some _ =>
      (TypeSpecifier.ofWords? (word :: words)).map fun specifier => ([], ⟨found, none, specifier⟩)
    | none =>
      match words with
      | [] => none
      | _ :: words =>
        (decodeWords? .empty words).map fun (pointers, base) => (found :: pointers, base)

/-- The declaration that a sentence says. -/
def Declaration.ofSentence? (sentence : String) : Option Declaration :=
  match sentence.toList.dropLast.splitOn ' ' with
  | [] => none
  | first :: words =>
    (decodeWords? .empty (words.map String.ofList)).map fun (pointers, base) =>
      ⟨String.ofList first.dropLast, pointers, base⟩

theorem TypeSpecifier.ofWords?_words (specifier : TypeSpecifier) :
    ofWords? specifier.words = some specifier := by
  cases specifier with
  | basic word => cases word <;> rfl
  | tagged kind name => cases kind <;> rfl

theorem decodeWords?_qualifiers (set : Qualifiers) (words : List String) :
    decodeWords? .empty (set.words ++ words) = decodeWords? set words := by
  obtain ⟨c, v⟩ := set
  cases c <;> cases v <;> rfl

theorem decodeWords?_pointer (set : Qualifiers) (words : List String) :
    decodeWords? set (["pointer", "to"] ++ words) =
      (decodeWords? .empty words).map fun (pointers, base) => (set :: pointers, base) := rfl

theorem decodeWords?_specifier (set : Qualifiers) (specifier : TypeSpecifier) :
    decodeWords? set specifier.words = some ([], ⟨set, none, specifier⟩) := by
  cases specifier with
  | basic word => cases word <;> rfl
  | tagged kind name => cases kind <;> rfl

theorem decodeWords?_sign (set : Qualifiers) (sign : Sign) (words : List String) :
    decodeWords? set (sign.spelling :: words) =
      (TypeSpecifier.ofWords? words).map fun specifier => ([], ⟨set, some sign, specifier⟩) := by
  cases sign <;> rfl

theorem decodeWords?_base (base : BaseType) :
    decodeWords? .empty base.words = some ([], base) := by
  obtain ⟨set, sign, specifier⟩ := base
  rw [BaseType.words, decodeWords?_qualifiers]
  cases sign with
  | none => exact decodeWords?_specifier set specifier
  | some word =>
    show decodeWords? set (word.spelling :: specifier.words) = _
    rw [decodeWords?_sign, TypeSpecifier.ofWords?_words]
    rfl

/-- The words tell the pointers, one after another, and then the type. -/
theorem decodeWords?_words (pointers : List Qualifiers) (base : BaseType) :
    decodeWords? .empty (pointers.flatMap (fun set => set.words ++ ["pointer", "to"]) ++ base.words) =
      some (pointers, base) := by
  -- Behind each `pointer to` no qualifiers are left over, so the decoder is where it began.
  induction pointers with
  | nil => exact decodeWords?_base base
  | cons set pointers ih =>
    rw [List.flatMap_cons, List.append_assoc, List.append_assoc, decodeWords?_qualifiers,
      decodeWords?_pointer, ih]
    rfl

theorem splitOn_spaced {text : List Char} (htext : ' ' ∉ text) {words : List String}
    (hwords : ∀ word ∈ words, ' ' ∉ word.toList) :
    (text ++ (Text.spaced words).toList).splitOn ' ' = text :: words.map String.toList := by
  induction words generalizing text with
  | nil => simpa [Text.spaced] using List.splitOn_eq_singleton htext
  | cons word words ih =>
    have hfirst : ' ' ∉ word.toList := hwords word List.mem_cons_self
    have hlater : ∀ later ∈ words, ' ' ∉ later.toList := fun later h =>
      hwords later (List.mem_cons_of_mem word h)
    have hcons : (Text.spaced (word :: words)).toList =
        ' ' :: (word.toList ++ (Text.spaced words).toList) := by
      simp [Text.spaced]
    rw [hcons, List.splitOn_append_cons_self, List.splitOn_eq_singleton htext, ih hfirst hlater]
    rfl

end Decoder

section Injective

variable {d d' : Declaration}

/-- The names in a declaration can be read. -/
def Declaration.IsReadable (d : Declaration) : Prop :=
  IsName d.name ∧ (Token.type d.base.specifier).IsReadable

theorem Qualifiers.isWord_of_mem_words {set : Qualifiers} :
    ∀ word ∈ set.words, IsWord word := by
  intro word hword
  obtain ⟨token, htoken, rfl⟩ := List.mem_map.mp hword
  rcases List.mem_append.mp htoken with hconst | hvolatile
  · split at hconst
    · rw [List.mem_singleton.mp hconst]
      exact Keyword.isWord_spelling (.qualifier .const)
    · cases hconst
  · split at hvolatile
    · rw [List.mem_singleton.mp hvolatile]
      exact Keyword.isWord_spelling (.qualifier .volatile)
    · cases hvolatile

theorem TypeSpecifier.isWord_of_mem_words {specifier : TypeSpecifier}
    (h : (Token.type specifier).IsReadable) : ∀ word ∈ specifier.words, IsWord word := by
  intro word hword
  cases specifier with
  | basic type =>
    rw [List.mem_singleton.mp hword]
    exact Keyword.isWord_spelling (.basic type)
  | tagged kind name =>
    rcases List.mem_pair.mp hword with rfl | rfl
    · exact Keyword.isWord_spelling (.tagged kind)
    · exact IsName.isWord h

theorem Declaration.IsReadable.isWord_of_mem_words (h : d.IsReadable) :
    ∀ word ∈ d.words, IsWord word := by
  intro word hword
  rcases List.mem_append.mp hword with hpointers | hbase
  · obtain ⟨set, -, hset⟩ := List.mem_flatMap.mp hpointers
    rcases List.mem_append.mp hset with hset | hpointer
    · exact Qualifiers.isWord_of_mem_words word hset
    · rcases List.mem_pair.mp hpointer with rfl | rfl <;> exact List.all_eq_true.mp (by decide)
  · rcases List.mem_append.mp hbase with hset | hbase
    · exact Qualifiers.isWord_of_mem_words word hset
    · rcases List.mem_append.mp hbase with hsign | htype
      · obtain ⟨sign, -, rfl⟩ := Option.map_eq_some_iff.mp (Option.mem_toList.mp hsign)
        exact Keyword.isWord_spelling (.sign sign)
      · exact TypeSpecifier.isWord_of_mem_words h.2 word htype

/-- A sentence is read back as the declaration that it says. -/
theorem Declaration.ofSentence?_sentence (h : d.IsReadable) : ofSentence? d.sentence = some d := by
  have hwords : ∀ word ∈ d.words, ' ' ∉ word.toList := fun word hword =>
    (h.isWord_of_mem_words word hword).blank_notMem
  have hname : ' ' ∉ d.name.toList ++ [':'] := by
    have hname : ' ' ∉ d.name.toList := h.1.isWord.blank_notMem
    simp [hname]
  have htext : d.sentence.toList.dropLast =
      (d.name.toList ++ [':']) ++ (Text.spaced d.words).toList := by
    have hend : "\n".toList = ['\n'] := rfl
    rw [sentence_eq, String.toList_append, hend, List.dropLast_concat, String.toList_append,
      String.toList_append]
    rfl
  have hback : (d.words.map String.toList).map String.ofList = d.words := by simp
  have hdecoded := decodeWords?_words d.pointers d.base
  rw [ofSentence?, htext, splitOn_spaced hname hwords]
  dsimp only
  rw [hback, words, hdecoded, List.dropLast_concat, String.ofList_toList]
  rfl

example : Declaration.ofSentence? "p: pointer to const struct const\n" =
    some ⟨"p", [.empty], ⟨⟨true, false⟩, none, .tagged .struct "const"⟩⟩ := by decide

theorem Declaration.eq_of_sentence_eq (h : d.IsReadable) (h' : d'.IsReadable)
    (hsentence : d.sentence = d'.sentence) : d = d' := by
  have hback := ofSentence?_sentence h
  rw [hsentence, ofSentence?_sentence h'] at hback
  exact (Option.some.inj hback).symm

end Injective

/-- A stream begins with the tokens of the derivation, and there is room for those in front of its
name. -/
def Derivation.IsReadFrom (d : Derivation) (capacity : Nat) (s : ByteStream) : Prop :=
  d.front.length ≤ capacity ∧ ∃ rest, ReadsOff s d.tokens rest

section Said

variable {capacity : Nat} {s : ByteStream} {sink : Sink} {report : Option Report} {d : Derivation}

theorem Derivation.IsReadFrom.isReadable (h : d.IsReadFrom capacity s) :
    d.declaration.IsReadable := by
  obtain ⟨-, rest, hread⟩ := h
  obtain ⟨hname, -⟩ := hread.isReadable _ d.mem_tokens_word
  exact ⟨hname, hread.isReadable _ d.mem_tokens_specifier⟩

theorem Derivation.IsReadFrom.said_eq (h : d.IsReadFrom capacity s) :
    (readDeclaration capacity s .unbounded).said = Text.utf8 d.declaration.sentence := by
  obtain ⟨hroom, rest, hread⟩ := h
  rw [readDeclaration_eq_ok_iff.mpr ⟨d, hread, hroom, rfl, rfl⟩]

theorem Sink.taken_eq {bytes : List UInt8} (h : (sink.write bytes).complete) :
    (sink.write bytes).taken = bytes := by
  obtain ⟨_ | room, flushes⟩ := sink
  · rfl
  · exact List.take_of_length_le (of_decide_eq_true h)

theorem describe_status_eq_ok_iff :
    (describe capacity s sink report).status = .ok ↔
      (∃ declaration, (readDeclaration capacity s .unbounded).result = .ok declaration) ∧
        (sink.write (readDeclaration capacity s .unbounded).said).complete := by
  have hstep := readDeclaration_inStep capacity s sink
  rw [describe, Report.status_recordResult_eq_ok_iff]
  cases hcomplete : (sink.write (readDeclaration capacity s .unbounded).said).complete with
  | false => simp [hstep.of_incomplete hcomplete]
  | true => simp [(hstep.of_complete hcomplete).1]

/-- A sink that has not lost anything has taken what a sink without a limit takes. -/
theorem unbounded_of_describe_ok (h : (describe capacity s sink report).status = .ok) :
    (∃ declaration, (readDeclaration capacity s .unbounded).result = .ok declaration) ∧
      (describe capacity s sink report).said = (readDeclaration capacity s .unbounded).said := by
  obtain ⟨hfound, hcomplete⟩ := describe_status_eq_ok_iff.mp h
  exact ⟨hfound, (readDeclaration_inStep capacity s sink).said.trans (Sink.taken_eq hcomplete)⟩

theorem exists_isReadFrom (h : (describe capacity s sink report).status = .ok) :
    ∃ d : Derivation, d.IsReadFrom capacity s := by
  obtain ⟨⟨declaration, hresult⟩, -⟩ := unbounded_of_describe_ok h
  obtain ⟨d, hread, hroom, -, -⟩ := exists_derivation hresult
  exact ⟨d, hroom, _, hread⟩

end Said

/-- What is said of two declarations is the same exactly when they declare the same name, with the
same pointers and the same type, however they are written. -/
theorem describe_said_eq_iff {capacity capacity' : Nat} {s s' : ByteStream} {sink sink' : Sink}
    {report report' : Option Report} (h : (describe capacity s sink report).status = .ok)
    (h' : (describe capacity' s' sink' report').status = .ok) :
    (∃ d : Derivation, d.IsReadFrom capacity s) ∧ (∃ d : Derivation, d.IsReadFrom capacity' s') ∧
      ∀ d d' : Derivation, d.IsReadFrom capacity s → d'.IsReadFrom capacity' s' →
        ((describe capacity s sink report).said = (describe capacity' s' sink' report').said ↔
          d.declarator.word = d'.declarator.word ∧
            d.declarator.pointers = d'.declarator.pointers ∧ d.base = d'.base) := by
  refine ⟨exists_isReadFrom h, exists_isReadFrom h', fun d d' hd hd' => ?_⟩
  rw [(unbounded_of_describe_ok h).2, (unbounded_of_describe_ok h').2, hd.said_eq, hd'.said_eq]
  constructor
  · intro hsaid
    have hsame : d.declaration = d'.declaration :=
      Declaration.eq_of_sentence_eq hd.isReadable hd'.isReadable (Text.utf8_injective hsaid)
    obtain ⟨hname, hpointers, hbase⟩ := Declaration.mk.inj hsame
    exact ⟨hname, hpointers, hbase⟩
  · intro hsame
    obtain ⟨hname, hpointers, hbase⟩ := hsame
    rw [Derivation.declaration, Derivation.declaration, hname, hpointers, hbase]

theorem describe_said_eq_iff_reordered :
    ∃ d d' : Derivation, d.IsReadFrom 4 (.ofBytes (Text.utf8 "const int*(p);")) ∧
      d'.IsReadFrom 3 (.ofBytes (Text.utf8 "int/**/const * p ;")) ∧
      d.declarator.word = d'.declarator.word ∧ d.declarator.pointers = d'.declarator.pointers ∧
      d.base = d'.base := by
  have h : (describe 4 (.ofBytes (Text.utf8 "const int*(p);")) .unbounded none).status = .ok := by
    decide +kernel
  have h' : (describe 3 (.ofBytes (Text.utf8 "int/**/const * p ;")) (.bounded 24) none).status =
      .ok := by decide +kernel
  have hsame : (describe 4 (.ofBytes (Text.utf8 "const int*(p);")) .unbounded none).said =
      (describe 3 (.ofBytes (Text.utf8 "int/**/const * p ;")) (.bounded 24) none).said := by
    decide +kernel
  obtain ⟨⟨d, hd⟩, ⟨d', hd'⟩, hsaid⟩ := describe_said_eq_iff h h'
  exact ⟨d, d', hd, hd', (hsaid d d' hd hd').mp hsame⟩

end CDeclarations
