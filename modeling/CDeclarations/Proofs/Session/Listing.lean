import CDeclarations.Proofs.Reading.Readable
import CDeclarations.Proofs.Reading.UpToEnd
import CDeclarations.Proofs.Text.Rows
import CDeclarations.Session.Entry

namespace CDeclarations

section Decoder

def TokenKind.all : List TokenKind :=
  Punctuation.all.map .punctuation ++
    [.qualifier .const, .qualifier .volatile, .sign .signed, .sign .unsigned, .basic .void,
      .basic .char, .basic .int, .basic .long, .basic .float, .basic .double, .tagged .struct,
      .tagged .enum, .number, .identifier]

def TokenKind.ofName? (name : String) : Option TokenKind := all.find? (·.name = name)

/-- The token of a kind that says so much beyond its kind. -/
def TokenKind.token : TokenKind → String → Token
  | .punctuation mark, _ => .punctuation mark
  | .qualifier word, _ => .qualifier word
  | .sign word, _ => .sign word
  | .basic word, _ => .type (.basic word)
  | .tagged kind, text => .type (.tagged kind text)
  | .number, text => .number text
  | .identifier, text => .identifier text

/-- The token in a row, which tells its kind and, behind a blank, its text. -/
def Token.ofRow? (row : String) : Option Token :=
  (TokenKind.ofName? (Text.columns row).1).map (·.token (Text.columns row).2)

/-- The tokens of a listing, in which each row is ended by a newline. -/
def decodeListing? (bytes : List UInt8) : Option (List Token) :=
  (Text.rows (Text.ofBytes bytes)).dropLast.mapM Token.ofRow?

end Decoder

section Rows

/-- What a row of a listing has in front of its newline. -/
def Token.row (t : Token) : String :=
  if t.text = "" then t.kind.name else t.kind.name ++ " " ++ t.text

theorem listingRow_eq (t : Token) : listingRow t = t.row ++ "\n" := by
  unfold listingRow Token.row
  split <;> rfl

theorem TokenKind.ofName?_name (kind : TokenKind) : ofName? kind.name = some kind := by
  rcases kind with mark | q | s | t | k | _ | _
  · cases mark <;> rfl
  · cases q <;> rfl
  · cases s <;> rfl
  · cases t <;> rfl
  · cases k <;> rfl
  · rfl
  · rfl

theorem TokenKind.isWord_name (kind : TokenKind) : IsWord kind.name := by
  cases kind with
  | punctuation mark => cases mark <;> exact List.all_eq_true.mp (by decide)
  | qualifier word => exact Keyword.isWord_spelling (.qualifier word)
  | sign word => exact Keyword.isWord_spelling (.sign word)
  | basic word => exact Keyword.isWord_spelling (.basic word)
  | tagged kind => exact Keyword.isWord_spelling (.tagged kind)
  | number => exact List.all_eq_true.mp (by decide)
  | identifier => exact List.all_eq_true.mp (by decide)

theorem TokenKind.token_kind_text (t : Token) : t.kind.token t.text = t := by
  cases t with
  | type specifier => cases specifier <;> rfl
  | _ => rfl

variable {t : Token} {tokens : List Token}

theorem Token.IsReadable.isWord_text (h : t.IsReadable) : IsWord t.text := by
  have hnone : IsWord "" := by simp [IsWord]
  cases t with
  | identifier name => exact h.1.isWord
  | number literal => exact IsLiteral.isWord h
  | type specifier =>
    cases specifier with
    | basic word => exact hnone
    | tagged kind name => exact IsName.isWord h
  | _ => exact hnone

theorem Token.IsReadable.isPrintable_row (h : t.IsReadable) : Text.IsPrintable t.row := by
  have hname := t.kind.isWord_name.isPrintable
  have htext := h.isWord_text.isPrintable
  unfold Token.row
  split
  · exact hname
  · exact (hname.append (by decide)).append htext

/-- The first blank of a row is the one behind the name of the kind. -/
theorem Token.columns_row (t : Token) : Text.columns t.row = (t.kind.name, t.text) := by
  have hblank := t.kind.isWord_name.blank_notMem
  unfold Token.row
  split
  · rename_i hnone
    rw [Text.columns_of_blank_notMem hblank, hnone]
  · exact Text.columns_append hblank t.text

theorem Token.ofRow?_row (t : Token) : ofRow? t.row = some t := by
  rw [ofRow?, columns_row, TokenKind.ofName?_name, Option.map_some, TokenKind.token_kind_text]

/-- A row is split off, whatever bytes stand behind its newline. -/
theorem Token.IsReadable.rows_cons (h : t.IsReadable) (bytes : List UInt8) :
    Text.rows (Text.ofBytes (Text.utf8 (listingRow t) ++ bytes)) =
      t.row :: Text.rows (Text.ofBytes bytes) := by
  have hascii : Text.IsAscii (t.row ++ "\n") :=
    Text.isAscii_append.mpr ⟨h.isPrintable_row.isAscii, by decide⟩
  have htext : Text.ofBytes (Text.utf8 (listingRow t) ++ bytes) =
      t.row ++ "\n" ++ Text.ofBytes bytes := by
    rw [listingRow_eq, Text.ofBytes, List.map_append, String.ofList_append, hascii.map_utf8,
      String.ofList_toList]
    rfl
  rw [htext, Text.rows_append, Text.rows_row h.isPrintable_row.newline_notMem, List.singleton_append]

theorem decodeListing?_rows (h : ∀ t ∈ tokens, t.IsReadable) :
    decodeListing? (tokens.flatMap fun t => Text.utf8 (listingRow t)) = some tokens := by
  induction tokens with
  | nil => rfl
  | cons t tokens ih =>
    obtain ⟨hfirst, hlater⟩ := List.forall_mem_cons.mp h
    have hdecoded := ih hlater
    unfold decodeListing? at hdecoded ⊢
    rw [List.flatMap_cons, hfirst.rows_cons, List.dropLast_cons_of_ne_nil (Text.rows_ne_nil _),
      List.mapM_cons, Token.ofRow?_row, hdecoded]
    rfl

end Rows

section Line

variable {s : ByteStream} {tokens : List Token}

theorem isReadable_of_readTokens (h : (readTokens s).1 = tokens.map .ok) :
    ∀ t ∈ tokens, t.IsReadable := by
  intro t ht
  have hmem : .ok t ∈ (readTokens s).1 := h ▸ List.mem_map_of_mem ht
  obtain ⟨i, hi⟩ := (upToEnd_readTokens s).exists_answer hmem
  exact isReadable_of_nextToken (Prod.ext hi rfl : nextToken (behind i s) = (_, _))

theorem listing_ok (tokens : List Token) :
    listing (tokens.map .ok) = (tokens.flatMap fun t => Text.utf8 (listingRow t), none) := by
  induction tokens with
  | nil => rfl
  | cons t tokens ih => rw [List.map_cons, listing, ih, List.flatMap_cons]

end Line

/-- A line of nothing but tokens is listed so that its rows can be read back as these tokens, and no
other line with other tokens is listed in the same way. -/
theorem listLine_decoded {line : String} {tokens : List Token}
    (h : (readTokens (lineStream line)).1 = tokens.map .ok) :
    (listLine line).2 = none ∧ decodeListing? (listLine line).1 = some tokens ∧
      ∀ (other : String) (tokens' : List Token),
        (readTokens (lineStream other)).1 = tokens'.map .ok →
        ((listLine line).1 = (listLine other).1 ↔ tokens = tokens') := by
  have hlist : ∀ {line : String} {tokens : List Token},
      (readTokens (lineStream line)).1 = tokens.map .ok →
      (listLine line).2 = none ∧ decodeListing? (listLine line).1 = some tokens := by
    intro line tokens h
    rw [listLine, h, listing_ok]
    exact ⟨rfl, decodeListing?_rows (isReadable_of_readTokens h)⟩
  refine ⟨(hlist h).1, (hlist h).2, fun other tokens' hother => ?_⟩
  constructor
  · intro hsame
    have hdecoded := (hlist h).2
    rw [hsame, (hlist hother).2] at hdecoded
    exact (Option.some.inj hdecoded).symm
  · intro hsame
    rw [listLine, listLine, h, hother, hsame]

/-- A tag has its name behind a blank, whatever stands between the two on the line, and `struct` is
the text of one row and the kind of another. -/
theorem listLine_decoded_tags :
    let tokens : List Token :=
      [.type (.tagged .enum "struct"), .punctuation .asterisk, .identifier "p",
        .punctuation .semicolon]
    (readTokens (lineStream "enum/**/struct*p;")).1 = tokens.map .ok ∧
      (readTokens (lineStream "enum struct *p ; // x")).1 = tokens.map .ok ∧
      (readTokens (lineStream "struct enum *p;")).1 ≠ tokens.map .ok ∧
      (listLine "enum/**/struct*p;").1 =
        Text.utf8 "enum struct\nstar\nidentifier p\nsemicolon\n" ∧
      decodeListing? (listLine "enum/**/struct*p;").1 = some tokens ∧
      (listLine "enum/**/struct*p;").1 = (listLine "enum struct *p ; // x").1 := by
  intro tokens
  have hread : (readTokens (lineStream "enum/**/struct*p;")).1 = tokens.map .ok := by
    decide +kernel
  have hspaced : (readTokens (lineStream "enum struct *p ; // x")).1 = tokens.map .ok := by
    decide +kernel
  obtain ⟨-, hdecoded, hsame⟩ := listLine_decoded hread
  exact ⟨hread, hspaced, by decide +kernel, by decide +kernel, hdecoded,
    (hsame _ tokens hspaced).mpr rfl⟩

end CDeclarations
