import CDeclarations.Token.Gap
import Mathlib.Logic.Basic
import Mathlib.Tactic.SplitIfs

namespace CDeclarations

/-- White space and complete comments stand in front of the rest. A block comment ends at the
first `*/` behind its `/*`, a line comment takes its newline with it or ends with the text. -/
inductive GapThen : List UInt8 → List UInt8 → Prop
  | nothing (s : List UInt8) : GapThen s s
  | space {b : UInt8} {s rest : List UInt8} (hspace : Text.isSpace (Char.ofUInt8 b))
      (later : GapThen s rest) : GapThen (b :: s) rest
  | line {body s rest : List UInt8} (hbody : '\n'.toUInt8 ∉ body) (later : GapThen s rest) :
      GapThen ('/'.toUInt8 :: '/'.toUInt8 :: (body ++ '\n'.toUInt8 :: s)) rest
  | lastLine {body : List UInt8} (hbody : '\n'.toUInt8 ∉ body) :
      GapThen ('/'.toUInt8 :: '/'.toUInt8 :: body) []
  | block {body s rest : List UInt8} (hbody : ¬ ['*'.toUInt8, '/'.toUInt8] <:+: body)
      (later : GapThen s rest) :
      GapThen ('/'.toUInt8 :: '*'.toUInt8 :: (body ++ '*'.toUInt8 :: '/'.toUInt8 :: s)) rest

/-- Nothing but white space and complete comments. -/
def IsGap (s : List UInt8) : Prop := GapThen s []

/-- The gap in front of the rest cannot be made longer. -/
def LongestGapThen (s rest : List UInt8) : Prop :=
  GapThen s rest ∧ ∀ shorter, GapThen s shorter → rest.length ≤ shorter.length

theorem GapThen.trans {s t rest : List UInt8} (first : GapThen s t) (second : GapThen t rest) :
    GapThen s rest := by
  induction first with
  | nothing => exact second
  | space hspace _ ih => exact .space hspace (ih second)
  | line hbody _ ih => exact .line hbody (ih second)
  | lastLine hbody =>
    cases second with
    | nothing => exact .lastLine hbody
  | block hbody _ ih => exact .block hbody (ih second)

theorem GapThen.suffix {s rest : List UInt8} (h : GapThen s rest) : rest <:+ s := by
  induction h with
  | nothing s => exact List.suffix_rfl
  | space _ _ ih => exact ih.trans (List.suffix_cons _ _)
  | @line body s rest _ _ ih =>
    refine ih.trans ⟨'/'.toUInt8 :: '/'.toUInt8 :: (body ++ ['\n'.toUInt8]), ?_⟩
    simp
  | lastLine _ => exact List.nil_suffix
  | @block body s rest _ _ ih =>
    refine ih.trans ⟨'/'.toUInt8 :: '*'.toUInt8 :: (body ++ ['*'.toUInt8, '/'.toUInt8]), ?_⟩
    simp

/-- What stands behind the first `*/`, if there is one. -/
def behindBlock? : List UInt8 → Option (List UInt8)
  | b :: c :: s =>
    if b = '*'.toUInt8 ∧ c = '/'.toUInt8 then some s else behindBlock? (c :: s)
  | _ => none

/-- What stands behind the first newline, which is nothing if there is none. -/
def behindLine : List UInt8 → List UInt8
  | [] => []
  | b :: s => if b = '\n'.toUInt8 then s else behindLine s

/-- What stands behind the comment at the front, if a complete one stands there. -/
def behindComment? : List UInt8 → Option (List UInt8)
  | b :: c :: s =>
    if b ≠ '/'.toUInt8 then none
    else if c = '*'.toUInt8 then behindBlock? s
    else if c = '/'.toUInt8 then some (behindLine s)
    else none
  | _ => none

theorem behindBlock?_eq_some_iff {s rest : List UInt8} :
    behindBlock? s = some rest ↔
      ∃ body, ¬ ['*'.toUInt8, '/'.toUInt8] <:+: body ∧
        s = body ++ '*'.toUInt8 :: '/'.toUInt8 :: rest := by
  fun_induction behindBlock? s with
  | case1 b c s hclose =>
    obtain ⟨rfl, rfl⟩ := hclose
    constructor
    · intro h
      cases h
      exact ⟨[], by simp, rfl⟩
    · intro h
      obtain ⟨body, hbody, heq⟩ := h
      match body, heq with
      | [], heq => cases heq; rfl
      | [d], heq => cases heq
      | d :: e :: body, heq =>
        simp only [List.cons_append, List.cons.injEq] at heq
        obtain ⟨rfl, rfl, -⟩ := heq
        exact absurd ⟨[], body, rfl⟩ hbody
  | case2 b c s hopen ih =>
    rw [ih]
    constructor
    · intro h
      obtain ⟨body, hbody, heq⟩ := h
      refine ⟨b :: body, ?_, by rw [heq]; rfl⟩
      -- In a longer body the pair can only begin at the byte in front, which `hopen` rules out.
      rw [List.infix_cons_iff]
      intro h
      rcases h with hhead | hinside
      · cases body with
        | nil => exact absurd hhead (by simp)
        | cons d body =>
          simp only [List.cons_append, List.cons.injEq] at heq
          simp only [List.cons_prefix_cons] at hhead
          exact hopen ⟨hhead.1.symm, heq.1.trans hhead.2.1.symm⟩
      · exact hbody hinside
    · intro h
      obtain ⟨body, hbody, heq⟩ := h
      cases body with
      | nil =>
        simp only [List.nil_append, List.cons.injEq] at heq
        exact absurd ⟨heq.1, heq.2.1⟩ hopen
      | cons d body =>
        simp only [List.cons_append, List.cons.injEq] at heq
        exact ⟨body, fun hinside => hbody (hinside.trans (List.suffix_cons _ _).isInfix), heq.2⟩
  | case3 s hshort =>
    constructor
    · intro h
      cases h
    · intro h
      obtain ⟨body, -, rfl⟩ := h
      match body, hshort with
      | [], hshort => exact absurd rfl (hshort _ _ _)
      | [d], hshort => exact absurd rfl (hshort _ _ _)
      | d :: e :: body, hshort => exact absurd rfl (hshort _ _ _)

theorem behindLine_append {body : List UInt8} (h : '\n'.toUInt8 ∉ body) (s : List UInt8) :
    behindLine (body ++ '\n'.toUInt8 :: s) = s := by
  induction body with
  | nil => simp [behindLine]
  | cons b body ih =>
    have hb : b ≠ '\n'.toUInt8 := fun e => h (e ▸ List.mem_cons_self)
    rw [List.cons_append, behindLine, if_neg hb, ih fun hmem => h (List.mem_cons_of_mem _ hmem)]

theorem behindLine_eq_nil {body : List UInt8} (h : '\n'.toUInt8 ∉ body) : behindLine body = [] := by
  induction body with
  | nil => rfl
  | cons b body ih =>
    have hb : b ≠ '\n'.toUInt8 := fun e => h (e ▸ List.mem_cons_self)
    rw [behindLine, if_neg hb, ih fun hmem => h (List.mem_cons_of_mem _ hmem)]

theorem eq_line_or_not_mem (s : List UInt8) :
    (∃ body, '\n'.toUInt8 ∉ body ∧ s = body ++ '\n'.toUInt8 :: behindLine s) ∨
      ('\n'.toUInt8 ∉ s ∧ behindLine s = []) := by
  by_cases h : '\n'.toUInt8 ∈ s
  · obtain ⟨body, rest, rfl, hbody⟩ := List.eq_append_cons_of_mem h
    exact .inl ⟨body, hbody, by rw [behindLine_append hbody]⟩
  · exact .inr ⟨h, behindLine_eq_nil h⟩

theorem behindComment?_eq_some_iff {s rest : List UInt8} :
    behindComment? s = some rest ↔
      (∃ body, ¬ ['*'.toUInt8, '/'.toUInt8] <:+: body ∧
        s = '/'.toUInt8 :: '*'.toUInt8 :: (body ++ '*'.toUInt8 :: '/'.toUInt8 :: rest)) ∨
      ∃ body, s = '/'.toUInt8 :: '/'.toUInt8 :: body ∧ rest = behindLine body := by
  constructor
  · intro h
    match s, h with
    | [], h => cases h
    | [b], h => cases h
    | b :: c :: s, h =>
      simp only [behindComment?] at h
      split_ifs at h with hb hstar hslash
      · rw [not_not.mp hb, hstar]
        obtain ⟨body, hbody, rfl⟩ := behindBlock?_eq_some_iff.mp h
        exact .inl ⟨body, hbody, rfl⟩
      · rw [not_not.mp hb, hslash]
        exact .inr ⟨s, rfl, (Option.some.inj h).symm⟩
  · intro h
    rcases h with ⟨body, hbody, rfl⟩ | ⟨body, rfl, rfl⟩
    · simpa [behindComment?] using behindBlock?_eq_some_iff.mpr ⟨body, hbody, rfl⟩
    · have hne : '/'.toUInt8 ≠ '*'.toUInt8 := by decide
      simp [behindComment?, hne]

theorem gapThen_of_behindComment? {s rest : List UInt8} (h : behindComment? s = some rest) :
    GapThen s rest := by
  rcases behindComment?_eq_some_iff.mp h with ⟨body, hbody, rfl⟩ | ⟨s, rfl, rfl⟩
  · exact .block hbody (.nothing rest)
  · rcases eq_line_or_not_mem s with ⟨body, hbody, heq⟩ | ⟨hs, heq⟩
    · have hline := GapThen.line hbody (.nothing (behindLine s))
      rwa [← heq] at hline
    · rw [heq]
      exact .lastLine hs

theorem length_behindLine_le (s : List UInt8) : (behindLine s).length ≤ s.length := by
  induction s with
  | nil => exact Nat.le_refl _
  | cons b s ih =>
    rw [behindLine]
    split
    · exact Nat.le_succ _
    · exact Nat.le_succ_of_le ih

theorem length_lt_of_behindComment? {s rest : List UInt8} (h : behindComment? s = some rest) :
    rest.length < s.length := by
  rcases behindComment?_eq_some_iff.mp h with ⟨body, _, rfl⟩ | ⟨s, rfl, rfl⟩
  · simp only [List.length_cons, List.length_append]
    omega
  · have hle := length_behindLine_le s
    simp only [List.length_cons]
    omega

/-- Leaves out the longest gap at the front. -/
def dropGap (s : List UInt8) : List UInt8 :=
  match s with
  | [] => []
  | b :: s =>
    if Text.isSpace (Char.ofUInt8 b) then dropGap s
    else
      match h : behindComment? (b :: s) with
      | some later =>
        have := length_lt_of_behindComment? h
        dropGap later
      | none => b :: s
termination_by s.length
decreasing_by
  · exact Nat.lt_succ_self _
  · exact this

@[simp] theorem dropGap_nil : dropGap [] = [] := by rw [dropGap]

theorem dropGap_space {b : UInt8} (h : Text.isSpace (Char.ofUInt8 b)) (s : List UInt8) :
    dropGap (b :: s) = dropGap s := by
  rw [dropGap, if_pos h]

theorem dropGap_comment {b : UInt8} {s later : List UInt8}
    (h : behindComment? (b :: s) = some later) : dropGap (b :: s) = dropGap later := by
  have hb : b = '/'.toUInt8 := by
    rcases behindComment?_eq_some_iff.mp h with ⟨_, _, heq⟩ | ⟨_, heq, _⟩ <;>
      exact (List.cons.inj heq).1
  have hspace : ¬ Text.isSpace (Char.ofUInt8 b) := by
    rw [hb]
    decide
  rw [dropGap, if_neg hspace]
  split <;> rename_i heq <;> rw [h] at heq <;> cases heq
  rfl

theorem dropGap_other {b : UInt8} {s : List UInt8} (hspace : ¬ Text.isSpace (Char.ofUInt8 b))
    (hcomment : behindComment? (b :: s) = none) : dropGap (b :: s) = b :: s := by
  rw [dropGap, if_neg hspace]
  split <;> simp_all

theorem gapThen_dropGap (s : List UInt8) : GapThen s (dropGap s) := by
  fun_induction dropGap s with
  | case1 => exact .nothing []
  | case2 b s hspace ih => exact .space hspace ih
  | case3 b s hspace later h hlt ih => exact (gapThen_of_behindComment? h).trans ih
  | case4 b s hspace h => exact .nothing (b :: s)

/-- However a gap at the front is ended, what is left of it is dropped in turn. -/
theorem dropGap_of_gapThen {s rest : List UInt8} (h : GapThen s rest) :
    dropGap s = dropGap rest := by
  induction h with
  | nothing => rfl
  | space hspace _ ih => rw [dropGap_space hspace, ih]
  | @line body s rest hbody _ ih =>
    rw [dropGap_comment (behindComment?_eq_some_iff.mpr (.inr ⟨_, rfl, rfl⟩)),
      behindLine_append hbody, ih]
  | lastLine hbody =>
    rw [dropGap_comment (behindComment?_eq_some_iff.mpr (.inr ⟨_, rfl, rfl⟩)),
      behindLine_eq_nil hbody]
  | block hbody _ ih =>
    rw [dropGap_comment (behindComment?_eq_some_iff.mpr (.inl ⟨_, hbody, rfl⟩)), ih]

theorem length_dropGap_le (s : List UInt8) : (dropGap s).length ≤ s.length :=
  (gapThen_dropGap s).suffix.length_le

theorem longestGapThen_dropGap (s : List UInt8) : LongestGapThen s (dropGap s) := by
  refine ⟨gapThen_dropGap s, fun shorter h => ?_⟩
  rw [dropGap_of_gapThen h]
  exact length_dropGap_le shorter

theorem dropGap_eq_nil_iff {s : List UInt8} : dropGap s = [] ↔ IsGap s := by
  constructor
  · intro h
    have hgap := gapThen_dropGap s
    rwa [h] at hgap
  · intro h
    rw [dropGap_of_gapThen h, dropGap_nil]

theorem of_dropGap_eq_cons {s rest : List UInt8} {b : UInt8} (h : dropGap s = b :: rest) :
    ¬ Text.isSpace (Char.ofUInt8 b) ∧ behindComment? (b :: rest) = none := by
  fun_induction dropGap s with
  | case1 => cases h
  | case2 _ _ _ ih => exact ih h
  | case3 _ _ _ _ _ _ ih => exact ih h
  | case4 c s hspace hcomment =>
    cases h
    exact ⟨hspace, hcomment⟩

end CDeclarations
