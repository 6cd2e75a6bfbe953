import CDeclarations.Declaration.Unwind
import Mathlib.Data.List.Nodup

namespace CDeclarations

/-- The set of the qualifiers in a list. -/
def Qualifiers.ofList (words : List Qualifier) : Qualifiers :=
  ⟨decide (.const ∈ words), decide (.volatile ∈ words)⟩

namespace Qualifiers

@[simp] theorem ofList_nil : ofList [] = empty := rfl

theorem contains_ofList (words : List Qualifier) (word : Qualifier) :
    (ofList words).contains word = decide (word ∈ words) := by
  cases word <;> rfl

theorem ofList_cons (word : Qualifier) (words : List Qualifier) :
    ofList (word :: words) = (ofList words).insert word := by
  cases word <;> simp [ofList, insert]

theorem ofList_congr {a b : List Qualifier} (h : ∀ word, word ∈ a ↔ word ∈ b) :
    ofList a = ofList b := by
  simp only [ofList, h]

theorem isEmpty_ofList {words : List Qualifier} : (ofList words).isEmpty ↔ words = [] := by
  rw [isEmpty_iff]
  constructor
  · intro h
    apply List.eq_nil_iff_forall_not_mem.mpr
    intro word hword
    have hcontains := contains_ofList words word
    rw [h, contains_empty] at hcontains
    exact of_decide_eq_false hcontains.symm hword
  · intro h
    subst h
    rfl

theorem insert?_ofList_eq_some_iff {words : List Qualifier} {word : Qualifier} {s : Qualifiers} :
    (ofList words).insert? word = some s ↔ word ∉ words ∧ s = ofList (word :: words) := by
  rw [insert?, contains_ofList, ofList_cons]
  by_cases h : word ∈ words
  · simp [h]
  · simp [h, eq_comm]

end Qualifiers

/-- What declares a name: the name itself, parentheses around a declarator, or a pointer in front
of one, with each qualifier at most once. -/
inductive Declarator
  | name (word : String)
  | parens (inner : Declarator)
  | pointer (qualifiers : List Qualifier) (distinct : qualifiers.Nodup) (inner : Declarator)

namespace Declarator

def tokens : Declarator → List Token
  | .name word => [.identifier word]
  | .parens inner =>
    .punctuation .leftParen :: inner.tokens ++ [.punctuation .rightParen]
  | .pointer qualifiers _ inner =>
    .punctuation .asterisk :: qualifiers.map .qualifier ++ inner.tokens

def word : Declarator → String
  | .name word => word
  | .parens inner | .pointer _ _ inner => inner.word

/-- The pointers with their qualifiers, the one nearest to the name first. -/
def pointers : Declarator → List Qualifiers
  | .name _ => []
  | .parens inner => inner.pointers
  | .pointer qualifiers _ inner => inner.pointers ++ [.ofList qualifiers]

/-- The tokens in front of the name. -/
def front : Declarator → List Token
  | .name _ => []
  | .parens inner => .punctuation .leftParen :: inner.front
  | .pointer qualifiers _ inner =>
    .punctuation .asterisk :: qualifiers.map .qualifier ++ inner.front

/-- How many pairs of parentheses the name is in. -/
def depth : Declarator → Nat
  | .name _ => 0
  | .parens inner => inner.depth + 1
  | .pointer _ _ inner => inner.depth

theorem tokens_eq (d : Declarator) :
    d.tokens =
      d.front ++ .identifier d.word :: List.replicate d.depth (.punctuation .rightParen) := by
  induction d with
  | name word => rfl
  | parens inner ih =>
    rw [tokens, front, word, depth, ih, List.replicate_succ']
    simp
  | pointer qualifiers distinct inner ih =>
    rw [tokens, front, word, depth, ih]
    simp

theorem identifier_notMem_front (d : Declarator) (name : String) :
    Token.identifier name ∉ d.front := by
  induction d with
  | name word => simp [front]
  | parens inner ih => simp [front, ih]
  | pointer qualifiers distinct inner ih => simp [front, ih]

end Declarator

theorem unwindPointers_qualifiers (right left : Nat) {words found : List Qualifier}
    (h : (words ++ found).Nodup) (tokens : List Token) :
    unwindPointers right left (.ofList found) (words.map .qualifier ++ tokens) =
      unwindPointers right left (.ofList (words ++ found)) tokens := by
  induction words generalizing found with
  | nil => rfl
  | cons word words ih =>
    have hperm : (words ++ word :: found).Perm (word :: words ++ found) := List.perm_middle
    have hword : word ∉ found := fun hmem =>
      (List.nodup_cons.mp h).1 (List.mem_append_right words hmem)
    have hinsert : (Qualifiers.ofList found).insert? word = some (.ofList (word :: found)) :=
      Qualifiers.insert?_ofList_eq_some_iff.mpr ⟨hword, rfl⟩
    rw [List.map_cons, List.cons_append, unwindPointers, hinsert]
    dsimp only
    rw [ih (hperm.nodup_iff.mpr h), Qualifiers.ofList_congr fun _ => hperm.mem_iff]

/-- The tokens in front of a name give the pointers of its declarator, and as many opening
parentheses as there are around the name. -/
theorem unwindPointers_front (right left : Nat) (d : Declarator) (tokens : List Token) :
    unwindPointers right left .empty (d.front.reverse ++ tokens) =
      (d.pointers ++ (unwindPointers right (left + d.depth) .empty tokens).1,
        (unwindPointers right (left + d.depth) .empty tokens).2) := by
  induction d generalizing tokens with
  | name word => rfl
  | parens inner ih =>
    have hparen : unwindPointers right (left + inner.depth) .empty
        (.punctuation .leftParen :: tokens) =
          unwindPointers right (left + (inner.depth + 1)) .empty tokens := by
      rw [unwindPointers]
      exact if_pos rfl
    rw [Declarator.front, List.reverse_cons, List.append_assoc, List.singleton_append, ih, hparen]
    rfl
  | pointer qualifiers distinct inner ih =>
    have hnodup : (qualifiers.reverse ++ []).Nodup := by simpa using distinct
    have hset : Qualifiers.ofList (qualifiers.reverse ++ []) = .ofList qualifiers :=
      Qualifiers.ofList_congr fun word => by simp
    have hfound := unwindPointers_qualifiers right (left + inner.depth) hnodup
      (.punctuation .asterisk :: tokens)
    rw [Qualifiers.ofList_nil, hset] at hfound
    rw [Declarator.front, List.reverse_append, List.reverse_cons, ← List.map_reverse,
      List.append_assoc, List.append_assoc, List.singleton_append, ih, hfound, unwindPointers]
    simp [Declarator.pointers, Declarator.depth]

theorem unwindPointers_base (right left : Nat) {words : List Qualifier} (h : words.Nodup)
    {token : Token} (htoken : token.isType ∨ token.isSign) (tokens : List Token) :
    unwindPointers right left .empty (words.map .qualifier ++ token :: tokens) =
      ([], if left = right then .ok (.ofList words, token :: tokens)
        else .error (.unbalancedParens left right)) := by
  have hnodup : (words ++ []).Nodup := by simpa using h
  have hfound := unwindPointers_qualifiers right left hnodup (token :: tokens)
  rw [Qualifiers.ofList_nil, List.append_nil] at hfound
  rw [hfound]
  cases token with
  | type specifier => by_cases hleft : left = right <;> simp [unwindPointers, Token.isType, hleft]
  | sign word => by_cases hleft : left = right <;> simp [unwindPointers, Token.isSign, hleft]
  | _ => simp [Token.isType, Token.isSign] at htoken

/-- What was understood of the tokens in front of a name goes around a declarator for those that
were read before: the opening parentheses and the pointers make it the inner part of another, with
the qualifiers of the type in front. -/
theorem declarator_of_unwindPointers {right left : Nat} {found found' : Qualifiers}
    {tokens rest : List Token} {ps : List Qualifiers}
    (h : unwindPointers right left found tokens = (ps, .ok (found', rest)))
    (d : Declarator) (hdepth : d.depth = left) (words : List Qualifier) (hwords : words.Nodup)
    (hfound : .ofList words = found) :
    ∃ (d' : Declarator) (words' : List Qualifier), d'.depth = right ∧ d'.word = d.word ∧
      d'.pointers = d.pointers ++ ps ∧ words'.Nodup ∧ .ofList words' = found' ∧
      tokens.reverse ++ words.map .qualifier ++ d.front =
        rest.reverse ++ words'.map .qualifier ++ d'.front := by
  -- The tokens are taken off from the right, so `d` grows from the name outwards.
  fun_induction unwindPointers right left found tokens generalizing d words ps
  case case3 left found word tokens found₁ hinsert ih =>
    rw [← hfound, Qualifiers.insert?_ofList_eq_some_iff] at hinsert
    obtain ⟨d', words', hright, hword, hps, hnodup, hset, htokens⟩ :=
      ih h d hdepth (word :: words) (List.nodup_cons.mpr ⟨hinsert.1, hwords⟩) hinsert.2.symm
    refine ⟨d', words', hright, hword, hps, hnodup, hset, ?_⟩
    rw [← htokens]
    simp
  case case4 left found tokens hempty ih =>
    have hnil : words = [] := Qualifiers.isEmpty_ofList.mp (hfound ▸ hempty)
    obtain ⟨d', words', hright, hword, hps, hnodup, hset, htokens⟩ :=
      ih h (.parens d) (by rw [Declarator.depth, hdepth]) words hwords hfound
    refine ⟨d', words', hright, hword, hps, hnodup, hset, ?_⟩
    rw [← htokens, hnil]
    simp [Declarator.front]
  case case6 left found tokens ps₁ result hunwind ih =>
    obtain ⟨rfl, rfl⟩ : found :: ps₁ = ps ∧ result = .ok (found', rest) := Prod.mk.inj h
    obtain ⟨d', words', hright, hword, hps, hnodup, hset, htokens⟩ :=
      ih hunwind (.pointer words hwords d) hdepth [] List.nodup_nil rfl
    refine ⟨d', words', hright, hword, ?_, hnodup, hset, ?_⟩
    · rw [hps, Declarator.pointers, hfound, List.append_assoc, List.singleton_append]
    · rw [← htokens]
      simp [Declarator.front]
  case case9 left found token tokens _ _ _ _ hleft =>
    cases h
    refine ⟨d, words, ?_, rfl, (List.append_nil _).symm, hwords, hfound, rfl⟩
    omega
  all_goals cases h

end CDeclarations
