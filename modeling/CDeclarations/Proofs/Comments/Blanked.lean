import CDeclarations.Proofs.LongestMatch.Token

namespace CDeclarations

/-- Where a scan for comments stands that knows nothing of tokens. -/
inductive CommentScan
  | normal
  | afterSlash
  | inLine
  | inBlock
  | inBlockAfterStar
  deriving DecidableEq

namespace CommentScan

def step : CommentScan → UInt8 → CommentScan
  | .normal, b => if b = '/'.toUInt8 then .afterSlash else .normal
  | .afterSlash, b =>
    if b = '*'.toUInt8 then .inBlock else if b = '/'.toUInt8 then .inLine else .normal
  | .inLine, b => if b = '\n'.toUInt8 then .normal else .inLine
  | .inBlock, b => if b = '*'.toUInt8 then .inBlockAfterStar else .inBlock
  | .inBlockAfterStar, b =>
    if b = '/'.toUInt8 then .normal
    else if b = '*'.toUInt8 then .inBlockAfterStar else .inBlock

/-- What a byte adds to a text that has a blank for each comment. A slash is added with the byte
behind it, if that opens no comment, and the blank with the byte that closes the comment. -/
def added : CommentScan → UInt8 → List UInt8
  | .normal, b => if b = '/'.toUInt8 then [] else [b]
  | .afterSlash, b => if b = '*'.toUInt8 ∨ b = '/'.toUInt8 then [] else ['/'.toUInt8, b]
  | .inLine, b => if b = '\n'.toUInt8 then [' '.toUInt8] else []
  | .inBlock, _ => []
  | .inBlockAfterStar, b => if b = '/'.toUInt8 then [' '.toUInt8] else []

/-- What the end adds. It closes a line comment, but no block comment. -/
def addedAtEnd : CommentScan → List UInt8
  | .normal | .inBlock | .inBlockAfterStar => []
  | .afterSlash => ['/'.toUInt8]
  | .inLine => [' '.toUInt8]

def isInBlock : CommentScan → Bool
  | .inBlock | .inBlockAfterStar => true
  | _ => false

end CommentScan

/-- A text with a blank for each comment, up to a block comment that is left open, and whether
there is such a comment. -/
structure Blanked where
  text : List UInt8
  isOpen : Bool
  deriving DecidableEq

def Blanked.behind (front : List UInt8) (later : Blanked) : Blanked :=
  { later with text := front ++ later.text }

def CommentScan.run : CommentScan → List UInt8 → Blanked
  | state, [] => ⟨state.addedAtEnd, state.isInBlock⟩
  | state, b :: s => ((state.step b).run s).behind (state.added b)

/-- The bytes with each comment replaced by a blank. -/
def blanked (s : List UInt8) : Blanked := CommentScan.normal.run s

@[simp] theorem Blanked.text_behind (front : List UInt8) (later : Blanked) :
    (later.behind front).text = front ++ later.text := rfl

@[simp] theorem Blanked.isOpen_behind (front : List UInt8) (later : Blanked) :
    (later.behind front).isOpen = later.isOpen := rfl

namespace CommentScan

theorem run_inLine (s : List UInt8) : inLine.run s = (blanked (behindLine s)).behind [' '.toUInt8] := by
  induction s with
  | nil => rfl
  | cons b s ih =>
    rw [behindLine, run, added, step]
    by_cases hb : b = '\n'.toUInt8
    · rw [if_pos hb, if_pos hb, if_pos hb]
      rfl
    · rw [if_neg hb, if_neg hb, if_neg hb, ih]
      rfl

/-- Behind a star only a slash makes a difference. -/
theorem run_afterStar {b : UInt8} (hb : b ≠ '/'.toUInt8) (s : List UInt8) :
    inBlockAfterStar.run (b :: s) = inBlock.run (b :: s) := by
  rw [run, run, added, added, step, step, if_neg hb, if_neg hb]

/-- A block comment leaves a blank if it is closed, and nothing if it is not. -/
theorem run_inBlock (s : List UInt8) :
    inBlock.run s =
      (behindBlock? s).elim ⟨[], true⟩ fun later => (blanked later).behind [' '.toUInt8] := by
  fun_induction behindBlock? s with
  | case1 b c s hclose =>
    obtain ⟨rfl, rfl⟩ := hclose
    rfl
  | case2 b c s hopen ih =>
    have hnext : inBlock.run (b :: c :: s) = (inBlock.step b).run (c :: s) := rfl
    rw [← ih, hnext, step]
    by_cases hb : b = '*'.toUInt8
    · have hc : c ≠ '/'.toUInt8 := fun hc => hopen ⟨hb, hc⟩
      rw [if_pos hb, run_afterStar hc]
    · rw [if_neg hb]
  | case3 s hshort =>
    rcases s with _ | ⟨b, _ | ⟨c, s⟩⟩
    · rfl
    · rw [run, step]
      split <;> rfl
    · exact absurd rfl (hshort b c s)

end CommentScan

section Blanked

theorem blanked_cons {b : UInt8} (hb : b ≠ '/'.toUInt8) (s : List UInt8) :
    blanked (b :: s) = (blanked s).behind [b] := by
  rw [blanked, CommentScan.run, CommentScan.added, CommentScan.step, if_neg hb, if_neg hb]
  rfl

/-- Where there is no slash there is no comment. -/
theorem blanked_append {front : List UInt8} (h : '/'.toUInt8 ∉ front) (s : List UInt8) :
    blanked (front ++ s) = (blanked s).behind front := by
  induction front with
  | nil => rfl
  | cons b front ih =>
    have hb : b ≠ '/'.toUInt8 := fun he => h (he ▸ List.mem_cons_self)
    have hfront : '/'.toUInt8 ∉ front := fun hmem => h (List.mem_cons_of_mem b hmem)
    rw [List.cons_append, blanked_cons hb, ih hfront]
    rfl

theorem blanked_comment {s later : List UInt8} (h : behindComment? s = some later) :
    blanked s = (blanked later).behind [' '.toUInt8] := by
  rcases behindComment?_eq_some_iff.mp h with ⟨body, hbody, rfl⟩ | ⟨body, rfl, rfl⟩
  · have hrun := CommentScan.run_inBlock (body ++ '*'.toUInt8 :: '/'.toUInt8 :: later)
    rw [behindBlock?_eq_some_iff.mpr ⟨body, hbody, rfl⟩] at hrun
    exact hrun
  · exact CommentScan.run_inLine body

example : blanked (Text.utf8 "struct/**/s*p; // s") = ⟨Text.utf8 "struct s*p;  ", false⟩ := by
  decide

open LongestMatch

theorem blanked_openComment {s : List UInt8} (hopen : opensComment s)
    (h : behindComment? s = none) : blanked s = ⟨[], true⟩ := by
  match s, hopen with
  | b :: c :: s, hopen =>
    obtain ⟨rfl, hc⟩ := opensComment_cons_iff.mp hopen
    obtain rfl : c = '*'.toUInt8 := Option.some.inj hc
    have hnone : behindBlock? s = none := h
    have hrun := CommentScan.run_inBlock s
    rw [hnone] at hrun
    exact hrun

/-- A slash that opens no comment is kept with the byte behind it. -/
theorem blanked_slash {c : UInt8} (hstar : c ≠ '*'.toUInt8) (hslash : c ≠ '/'.toUInt8)
    (s : List UInt8) :
    blanked ('/'.toUInt8 :: c :: s) = (blanked s).behind ['/'.toUInt8, c] := by
  have hboth : ¬ (c = '*'.toUInt8 ∨ c = '/'.toUInt8) := not_or.mpr ⟨hstar, hslash⟩
  have hadded : CommentScan.afterSlash.added c = ['/'.toUInt8, c] := if_neg hboth
  have hstep : CommentScan.afterSlash.step c = .normal := by
    rw [CommentScan.step, if_neg hstar, if_neg hslash]
  have hrun : blanked ('/'.toUInt8 :: c :: s) =
      ((CommentScan.afterSlash.step c).run s).behind (CommentScan.afterSlash.added c) := rfl
  rw [hrun, hadded, hstep]
  rfl

/-- A byte that opens no comment is kept, and opens none in front of what is left either. -/
theorem blanked_front {b : UInt8} {s : List UInt8} (hcomment : behindComment? (b :: s) = none)
    (hopen : ¬ opensComment (b :: s)) :
    blanked (b :: s) = (blanked s).behind [b] ∧ behindComment? (b :: (blanked s).text) = none ∧
      ¬ opensComment (b :: (blanked s).text) := by
  by_cases hb : b = '/'.toUInt8
  · subst hb
    cases s with
    | nil => exact ⟨rfl, rfl, by decide⟩
    | cons c s =>
      have hstar : c ≠ '*'.toUInt8 := fun hc =>
        hopen (opensComment_cons_iff.mpr ⟨rfl, congrArg some hc⟩)
      have hslash : c ≠ '/'.toUInt8 := by
        intro hc
        rw [hc, behindComment?_eq_some_iff.mpr (.inr ⟨s, rfl, rfl⟩)] at hcomment
        cases hcomment
      rw [blanked_slash hstar hslash, blanked_cons hslash]
      refine ⟨rfl, ?_, fun hopens => hstar (Option.some.inj (opensComment_cons_iff.mp hopens).2)⟩
      simp [behindComment?, hstar, hslash]
  · refine ⟨blanked_cons hb s, ?_, fun hopens => hb (opensComment_cons_iff.mp hopens).1⟩
    cases (blanked s).text with
    | nil => rfl
    | cons c later => exact if_pos hb

/-- What stands in front of the next token is dropped with or without its comments. -/
theorem dropGap_blanked (s : List UInt8) :
    (opensComment (dropGap s) ∧ (blanked s).isOpen ∧ dropGap (blanked s).text = []) ∨
      (¬ opensComment (dropGap s) ∧ (blanked s).isOpen = (blanked (dropGap s)).isOpen ∧
        dropGap (blanked s).text = (blanked (dropGap s)).text) := by
  have hblank : Text.isSpace (Char.ofUInt8 ' '.toUInt8) := by decide
  fun_induction dropGap s with
  | case1 => exact .inr ⟨by decide, rfl, dropGap_nil⟩
  | case2 b s hspace ih =>
    have hb : b ≠ '/'.toUInt8 := by
      rintro rfl
      exact absurd hspace (by decide)
    rw [blanked_cons hb, Blanked.text_behind, Blanked.isOpen_behind, List.singleton_append,
      dropGap_space hspace]
    exact ih
  | case3 b s hspace later h hlt ih =>
    rw [blanked_comment h, Blanked.text_behind, Blanked.isOpen_behind, List.singleton_append,
      dropGap_space hblank]
    exact ih
  | case4 b s hspace hcomment =>
    by_cases hopen : opensComment (b :: s)
    · rw [blanked_openComment hopen hcomment]
      exact .inl ⟨hopen, rfl, dropGap_nil⟩
    · obtain ⟨hfront, hnone, -⟩ := blanked_front hcomment hopen
      rw [hfront]
      exact .inr ⟨hopen, rfl, dropGap_other hspace hnone⟩

end Blanked

end CDeclarations
