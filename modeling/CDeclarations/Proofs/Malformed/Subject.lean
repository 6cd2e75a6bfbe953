import CDeclarations.Proofs.Malformed.BaseType

namespace CDeclarations

/-- What an error tells is found in the tokens in front of a name, the name, and the number of the
parentheses that close behind it. -/
inductive SyntaxError.About (front : List Token) (name : String) (closing : Nat) :
    SyntaxError → Prop
  | duplicateQualifier (word : Qualifier) (target : QualifierTarget) :
      About front name closing (.duplicateQualifier word target)
  | unexpectedToken {token : Token} (part : DeclarationPart) :
      token ∈ front → About front name closing (.unexpectedToken token part)
  | unbalancedParens {left : Nat} :
      left ≤ front.length → About front name closing (.unbalancedParens left closing)
  | outOfTokens : About front name closing .outOfTokens
  | conflictingTypes {left right : TypeSpecifier} :
      List.Sublist [.type left, .type right] front →
      About front name closing (.conflictingTypes left right name)
  | conflictingSigns : About front name closing .conflictingSigns
  | duplicateSign (word : Sign) : About front name closing (.duplicateSign word)
  | invalidSign (word : Sign) {specifier : TypeSpecifier} :
      .type specifier ∈ front → About front name closing (.invalidSign word specifier)
  | missingType : About front name closing (.missingType name)

section

variable {front tokens right : List Token} {token : Token} {name : String} {closing : Nat}
  {found : Qualifiers} {e : SyntaxError}

theorem SyntaxError.About.of_sublist (h : e.About tokens name closing)
    (hsublist : List.Sublist tokens front) : e.About front name closing := by
  cases h with
  | duplicateQualifier word target => exact .duplicateQualifier word target
  | unexpectedToken part htoken => exact .unexpectedToken part (hsublist.mem htoken)
  | unbalancedParens hleft => exact .unbalancedParens (hleft.trans hsublist.length_le)
  | outOfTokens => exact .outOfTokens
  | conflictingTypes htypes => exact .conflictingTypes (htypes.trans hsublist)
  | conflictingSigns => exact .conflictingSigns
  | duplicateSign word => exact .duplicateSign word
  | invalidSign word htype => exact .invalidSign word (hsublist.mem htype)
  | missingType => exact .missingType

/-- What has been read can be shown, so a text that tells of nothing else can. -/
theorem SyntaxError.About.isPrintable_message (h : e.About front name closing) (hname : IsName name)
    (hreadable : ∀ t ∈ front, t.IsReadable) : Text.IsPrintable e.message := by
  have hname : Text.IsPrintable name := hname.isWord.isPrintable
  cases h with
  | duplicateQualifier word target => cases word <;> cases target <;> decide
  | @unexpectedToken token part htoken =>
    have hspelling := Token.isPrintable_spelling (hreadable token htoken)
    have hpart : Text.IsPrintable part.name := by cases part <;> decide
    exact ((Text.IsPrintable.append (by decide) hspelling).append (by decide)).append hpart
  | @unbalancedParens left _ =>
    have hleft := Text.isPrintable_toString left
    have hright := Text.isPrintable_toString closing
    exact (((Text.IsPrintable.append (by decide) hleft).append (by decide)).append hright).append
      (by decide)
  | outOfTokens => decide
  | @conflictingTypes left right htypes =>
    have hleft := Token.isPrintable_spelling (hreadable (.type left) (htypes.mem (by simp)))
    have hright := Token.isPrintable_spelling (hreadable (.type right) (htypes.mem (by simp)))
    exact (((((Text.IsPrintable.append (by decide) hleft).append (by decide)).append hright).append
      (by decide)).append hname).append (by decide)
  | conflictingSigns => decide
  | duplicateSign word => cases word <;> decide
  | @invalidSign word specifier htype =>
    have hword : Text.IsPrintable word.spelling := by cases word <;> decide
    have hspelling := Token.isPrintable_spelling (hreadable (.type specifier) htype)
    exact ((hword.append (by decide)).append hspelling).append (by decide)
  | missingType => exact (Text.IsPrintable.append (by decide) hname).append (by decide)

theorem PointerFlaw.about (h : PointerFlaw token right e) :
    e.About (token :: right) name closing := by
  cases h with
  | duplicate _ => exact .duplicateQualifier _ _
  | paren => exact .unexpectedToken _ List.mem_cons_self

theorem BaseFlaw.about (h : BaseFlaw name found token right e) :
    e.About (token :: right) name closing := by
  cases h with
  | duplicateQualifier _ => exact .duplicateQualifier _ _
  | duplicateSign _ => exact .duplicateSign _
  | conflictingSigns _ _ => exact .conflictingSigns
  | conflictingTypes hmem =>
    exact .conflictingTypes ((List.singleton_sublist.mpr hmem).cons_cons _)
  | unexpected _ => exact .unexpectedToken _ List.mem_cons_self

theorem about_of_pointersFault? (h : pointersFault? front closing = some e) :
    e.About front name closing := by
  have htypes : typeTokens front <+: front := List.rdropWhile_prefix _ _
  have hpointers : pointerTokens front <:+ front := List.rtakeWhile_suffix _ _
  unfold pointersFault? at h
  split at h
  · cases h
    exact .outOfTokens
  · rename_i stop hstop
    dsimp only at h
    split_ifs at h
    · cases h
      exact .unexpectedToken _ (htypes.mem (List.mem_of_getLast? hstop))
    · cases h
      exact .unbalancedParens (List.count_le_length.trans hpointers.length_le)

theorem about_of_unwindPointers {pointers : List Qualifiers}
    (h : unwindPointers closing 0 .empty front.reverse = (pointers, .error e)) :
    e.About front name closing := by
  have hpointers : pointerTokens front <:+ front := List.rtakeWhile_suffix _ _
  rcases flawless_or_exists_rightmostFlaw PointerFlaw (pointerTokens front) with
    hflawless | ⟨later, e', hflaw⟩
  · rw [unwindPointers_of_flawless closing hflawless] at h
    cases hfault : pointersFault? front closing with
    | some e' =>
      rw [hfault] at h
      obtain rfl := Except.error.inj (congrArg Prod.snd h)
      exact about_of_pointersFault? hfault
    | none =>
      rw [hfault] at h
      cases h
  · obtain ⟨token, hsuffix, hrule⟩ := hflaw.exists_token
    rw [unwindPointers_of_rightmostFlaw hflaw] at h
    obtain rfl := Except.error.inj (congrArg Prod.snd h)
    exact hrule.about.of_sublist (hsuffix.trans hpointers).sublist

theorem Specifiers.KnownFrom.about_of_conclude {known : Specifiers}
    (hknown : known.KnownFrom found tokens) (h : (known.conclude name).2 = .error e) :
    e.About tokens name closing := by
  unfold conclude at h
  split at h
  · cases h
    exact .missingType
  · cases h
  · rename_i specifier word hspecifier hsign
    dsimp only at h
    split_ifs at h
    cases h
    exact .invalidSign word ((hknown.type specifier).mp hspecifier)

theorem about_of_unwindBase (h : (unwindBase name found tokens.reverse).2 = .error e) :
    e.About tokens name closing := by
  rcases flawless_or_exists_rightmostFlaw (BaseFlaw name found) tokens with
    hflawless | ⟨right, e', hflaw⟩
  · obtain ⟨known, hknown, hbase⟩ := exists_unwindBase_of_flawless hflawless
    rw [hbase] at h
    exact hknown.about_of_conclude h
  · obtain ⟨token, hsuffix, hrule⟩ := hflaw.exists_token
    rw [unwindBase_of_rightmostFlaw hflaw] at h
    obtain rfl := Except.error.inj h
    exact hrule.about.of_sublist hsuffix.sublist

/-- Whatever is wrong with the tokens, the error tells of nothing else. -/
theorem about_of_unwind (h : (unwind name closing front.reverse).2 = .error e) :
    e.About front name closing := by
  cases hpointers : unwindPointers closing 0 .empty front.reverse with
  | mk pointers outcome =>
    cases outcome with
    | error e' =>
      rw [unwind_of_pointers_error hpointers] at h
      obtain rfl := Except.error.inj h
      exact about_of_unwindPointers hpointers
    | ok behind =>
      obtain ⟨found, stack⟩ := behind
      obtain ⟨-, -, rfl⟩ := eq_of_unwindPointers_ok hpointers
      have hbase := (unwind_eq_error_iff hpointers).mp h
      have htypes : typeTokens front <+: front := List.rdropWhile_prefix _ _
      exact (about_of_unwindBase hbase).of_sublist htypes.sublist

end

end CDeclarations
