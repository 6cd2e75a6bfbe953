import CDeclarations.Proofs.Declaration.Writes
import CDeclarations.Proofs.Grammar.Acceptance
import CDeclarations.Proofs.Reading.Prolonged

namespace CDeclarations

/-- A name with no more tokens in front of it than there is room for, and behind it closing
parentheses up to a semicolon. Whether that makes a declaration is not said. -/
def IsStatement (capacity : Nat) (tokens : List Token) : Prop :=
  ∃ front name closing, (∀ word, Token.identifier word ∉ front) ∧ front.length ≤ capacity ∧
    tokens = front ++ [.identifier name] ++
      (List.replicate closing (.punctuation .rightParen) ++ [.punctuation .semicolon])

/-- So many readings one after another, each with the stream, the sink and the report that the one
before it left. -/
def describeTimes (capacity : Nat) : Nat → ByteStream → Sink → Option Report → List Description
  | 0, _, _, _ => []
  | n + 1, s, sink, report =>
    let d := describe capacity s sink report
    d :: describeTimes capacity n d.rest d.sink d.report

theorem Report.recordResult_congr (r r' : Report) (result : Except DeclarationError Declaration) :
    r.recordResult result = r'.recordResult result := by
  cases result with
  | ok d => rfl
  | error e => cases e <;> rfl

/-- The report given is of no account, but for whether there is one. -/
theorem describe_some (capacity : Nat) (s : ByteStream) (sink : Sink) (r r' : Report) :
    describe capacity s sink (some r) = describe capacity s sink (some r') := by
  simp only [describe, Option.getD_some, Option.map_some, r.recordResult_congr r']

theorem exists_readsOff_of_takeTokens {n : Nat} {s : ByteStream} {tokens : List Token}
    (h : (takeTokens n s).1 = tokens.map .ok) : ∃ rest, ReadsOff s tokens rest := by
  induction tokens generalizing n s with
  | nil => exact ⟨s, readsOff_nil.mpr rfl⟩
  | cons token tokens ih =>
    cases n with
    | zero => cases h
    | succ n =>
      rw [takeTokens] at h
      split at h
      · cases h
      · rename_i outcome rest hend hnext
        obtain ⟨rfl, hmore⟩ := List.cons.inj h
        obtain ⟨last, hlast⟩ := ih hmore
        exact ⟨last, readsOff_cons.mpr ⟨rest, hnext, hlast⟩⟩

section Statement

variable {capacity : Nat} {tokens : List Token} {s rest : ByteStream}

theorem IsStatement.phases (htokens : IsStatement capacity tokens) (h : ReadsOff s tokens rest) :
    ∃ name stack between closing,
      readToName (.withCapacity capacity) s = (.ok (name, stack), between) ∧
      readClosing 0 between = (.ok (closing, .punctuation .semicolon), rest) ∧
      ∀ more,
        readToName (.withCapacity capacity) (s.append more) =
          (.ok (name, stack), between.append more) ∧
        readClosing 0 (between.append more) =
          (.ok (closing, .punctuation .semicolon), rest.append more) := by
  obtain ⟨front, name, closing, hnames, hroom, rfl⟩ := htokens
  obtain ⟨between, hfront, hbehind⟩ := readsOff_append.mp h
  -- The name is followed by a token, so that its end is found without what is to come.
  have hleft : between.events ≠ [] := by
    cases closing <;> exact hbehind.ne_nil
  have hname : ∀ {s between}, ReadsOff s (front ++ [.identifier name]) between →
      readToName (.withCapacity capacity) s =
        (.ok (name, ⟨front.reverse ++ [], capacity - front.length⟩), between) :=
    fun hread => readToName_eq_ok_iff.mpr ⟨front, hread, hnames, hroom, rfl⟩
  have hclosing : ∀ {between rest}, ReadsOff between
      (List.replicate closing (.punctuation .rightParen) ++ [.punctuation .semicolon]) rest →
      readClosing 0 between = (.ok (closing, .punctuation .semicolon), rest) :=
    fun hread => readClosing_eq_ok_iff.mpr ⟨closing, (Nat.zero_add _).symm, hread, by simp⟩
  exact ⟨name, _, between, closing, hname hfront, hclosing hbehind, fun more =>
    ⟨hname (hfront.append_of_left hleft more), hclosing (hbehind.append more)⟩⟩

/-- A statement is read in the same way whatever stands behind it, and that is left behind what
the reading leaves anyway. -/
theorem describe_append (htokens : IsStatement capacity tokens) (h : ReadsOff s tokens rest)
    (more : List ReadEvent) (sink : Sink) (report : Option Report) :
    describe capacity (s.append more) sink report =
      { describe capacity s sink report with
        rest := (describe capacity s sink report).rest.append more } := by
  obtain ⟨name, stack, between, closing, hname, hclosing, hlonger⟩ := htokens.phases h
  obtain ⟨hname', hclosing'⟩ := hlonger more
  unfold describe
  rw [readDeclaration_of_name hname, readDeclaration_of_name hname', hclosing, hclosing']
  dsimp only
  split <;> rfl

theorem rest_describe_of_isStatement (htokens : IsStatement capacity tokens)
    (h : ReadsOff s tokens rest) (report : Option Report) :
    (describe capacity s .unbounded report).rest = rest := by
  obtain ⟨name, stack, between, closing, hname, hclosing, -⟩ := htokens.phases h
  unfold describe
  rw [readDeclaration_unbounded hname, hclosing]

/-- The semicolon of a statement is the last byte that is used up. -/
theorem IsStatement.exists_left {d : List UInt8} (htokens : IsStatement capacity tokens)
    (h : ReadsOff (.ofBytes d) tokens rest) :
    ∃ before left, d = before ++ ';'.toUInt8 :: left ∧ rest = .ofBytes left := by
  obtain ⟨front, name, closing, -, -, rfl⟩ := htokens
  rw [← List.append_assoc] at h
  obtain ⟨between, hinner, hlast⟩ := readsOff_append.mp h
  obtain ⟨next, hnext, hrest⟩ := readsOff_cons.mp hlast
  obtain rfl := readsOff_nil.mp hrest
  obtain ⟨after, ⟨earlier, hearlier⟩, hafter⟩ := hinner.suffix (ByteStream.events_ofBytes d)
  obtain ⟨hheld, before, hbefore⟩ := nextToken_punctuation hnext (by decide)
  rw [hafter] at hbefore
  obtain ⟨front', behind, hafter', hfront', hbehind⟩ := List.map_eq_append_iff.mp hbefore
  obtain ⟨b, left, rfl, hb, hleft⟩ := List.map_eq_cons_iff.mp hbehind
  cases hb
  refine ⟨earlier ++ front', left, by rw [← hearlier, hafter', List.append_assoc]; rfl, ?_⟩
  obtain ⟨held, unread⟩ := next
  cases hheld
  rw [ByteStream.ofBytes, ByteStream.ofEvents, hleft]

end Statement

theorem length_describeTimes (capacity n : Nat) (s : ByteStream) (sink : Sink)
    (report : Option Report) : (describeTimes capacity n s sink report).length = n := by
  induction n generalizing s sink report with
  | zero => rfl
  | succ n ih => rw [describeTimes, List.length_cons, ih]

theorem describe_sink_unbounded (capacity : Nat) (s : ByteStream) (report : Option Report) :
    (describe capacity s .unbounded report).sink = .unbounded :=
  readDeclaration_sink_unbounded capacity s

/-- The bytes are those of a statement, and its semicolon is the last of them. -/
def IsStatementText (capacity : Nat) (d : List UInt8) : Prop :=
  ∃ tokens, IsStatement capacity tokens ∧ ReadsOff (.ofBytes d) tokens (.ofBytes [])

/-- In front of other bytes such a text leaves just these. -/
theorem describe_statementText {capacity : Nat} {d : List UInt8} (h : IsStatementText capacity d)
    (b : List UInt8) (report : Option Report) :
    describe capacity (.ofBytes (d ++ b)) .unbounded report =
      { describe capacity (.ofBytes d) .unbounded report with rest := .ofBytes b } := by
  obtain ⟨tokens, htokens, hread⟩ := h
  have hlonger := describe_append htokens hread (b.map .byte) .unbounded report
  rw [rest_describe_of_isStatement htokens hread] at hlonger
  rw [ByteStream.ofBytes_append, hlonger]
  rfl

theorem describeTimes_some (capacity n : Nat) (s : ByteStream) (sink : Sink) (r r' : Report) :
    describeTimes capacity n s sink (some r) = describeTimes capacity n s sink (some r') := by
  cases n with
  | zero => rfl
  | succ n => rw [describeTimes, describe_some capacity s sink r r', describeTimes]

theorem describeTimes_succ {capacity : Nat} {d : List UInt8} (h : IsStatementText capacity d)
    (n : Nat) (b : List UInt8) (report : Report) :
    describeTimes capacity (n + 1) (.ofBytes (d ++ b)) .unbounded (some report) =
      { describe capacity (.ofBytes d) .unbounded (some .clear) with rest := .ofBytes b } ::
        describeTimes capacity n (.ofBytes b) .unbounded (some report) := by
  have hfirst := describe_statementText h b (some .clear)
  have hsink := describe_sink_unbounded capacity (.ofBytes d) (some .clear)
  obtain ⟨recorded, hreport⟩ :
      ∃ r, (describe capacity (.ofBytes d) .unbounded (some .clear)).report = some r := ⟨_, rfl⟩
  rw [describeTimes, describe_some _ _ _ report .clear, hfirst]
  dsimp only
  rw [hsink, hreport, describeTimes_some _ _ _ _ recorded report]

/-- Statements one behind another are read one by one, each as if it stood alone. -/
theorem describeTimes_statements {capacity : Nat} {ds : List (List UInt8)}
    (h : ∀ d ∈ ds, IsStatementText capacity d) (b : List UInt8) (report : Report) {i : Nat}
    {d : List UInt8} (hd : ds[i]? = some d) :
    (describeTimes capacity ds.length (.ofBytes (ds.flatten ++ b)) .unbounded (some report))[i]? =
      some { describe capacity (.ofBytes d) .unbounded (some .clear) with
        rest := .ofBytes ((ds.drop (i + 1)).flatten ++ b) } := by
  induction ds generalizing i with
  | nil => cases hd
  | cons first ds ih =>
    have hfirst : IsStatementText capacity first := h first List.mem_cons_self
    have hlater : ∀ d ∈ ds, IsStatementText capacity d :=
      fun d hmem => h d (List.mem_cons_of_mem _ hmem)
    rw [List.length_cons, List.flatten_cons, List.append_assoc, describeTimes_succ hfirst]
    cases i with
    | zero =>
      obtain rfl := Option.some.inj hd
      rfl
    | succ i => exact ih hlater hd

/-- What stands behind a statement has no part in how it is read, and is left behind what the
statement itself leaves. Where that is nothing, statements that stand one behind another are read
one by one, each as if it stood alone and nothing had been read before. -/
theorem describe_consecutive (capacity : Nat) :
    (∀ d tokens, IsStatement capacity tokens →
      (readTokens (.ofBytes d)).1 = tokens.map .ok →
      (∀ b sink report,
        describe capacity (.ofBytes (d ++ b)) sink report =
          { describe capacity (.ofBytes d) sink report with
            rest := (describe capacity (.ofBytes d) sink report).rest.append (b.map .byte) }) ∧
      ∃ before left, d = before ++ ';'.toUInt8 :: left ∧
        ReadsOff (.ofBytes d) tokens (.ofBytes left) ∧
        ∀ b report,
          (describe capacity (.ofBytes (d ++ b)) .unbounded report).rest = .ofBytes (left ++ b)) ∧
    ∀ ds : List (List UInt8), (∀ d ∈ ds, IsStatementText capacity d) → ∀ b report,
      (describeTimes capacity ds.length (.ofBytes (ds.flatten ++ b)) .unbounded
        (some report)).length = ds.length ∧
      ∀ (i : Nat) d, ds[i]? = some d →
        (describeTimes capacity ds.length (.ofBytes (ds.flatten ++ b)) .unbounded
            (some report))[i]? =
          some { describe capacity (.ofBytes d) .unbounded (some .clear) with
            rest := .ofBytes ((ds.drop (i + 1)).flatten ++ b) } := by
  refine ⟨fun d tokens htokens hall => ?_, fun ds hds b report => ?_⟩
  · obtain ⟨rest, hread⟩ := exists_readsOff_of_takeTokens hall
    have happend : ∀ b sink report, describe capacity (.ofBytes (d ++ b)) sink report =
        { describe capacity (.ofBytes d) sink report with
          rest := (describe capacity (.ofBytes d) sink report).rest.append (b.map .byte) } := by
      intro b sink report
      rw [ByteStream.ofBytes_append]
      exact describe_append htokens hread (b.map .byte) sink report
    obtain ⟨before, left, hd, rfl⟩ := htokens.exists_left hread
    refine ⟨happend, before, left, hd, hread, fun b report => ?_⟩
    rw [happend b .unbounded report, rest_describe_of_isStatement htokens hread,
      ByteStream.ofBytes_append]
  · exact ⟨length_describeTimes .., fun i d hd => describeTimes_statements hds b report hd⟩

/-- A declaration, a statement whose parentheses are at odds, and one that asks for too much of its
type, one behind another. -/
theorem describe_consecutive_three :
    let ds := [Text.utf8 "int a;", Text.utf8 " char (*p;", Text.utf8 "signed double d;"]
    (∀ d ∈ ds, IsStatementText 20 d) ∧
      (describeTimes 20 3 (.ofBytes (ds.flatten ++ Text.utf8 "x")) .unbounded (some .clear))[1]? =
        some { describe 20 (.ofBytes (Text.utf8 " char (*p;")) .unbounded (some .clear) with
          rest := .ofBytes (Text.utf8 "signed double d;x") } := by
  intro ds
  have hds : ∀ d ∈ ds, IsStatementText 20 d := by
    intro d hd
    simp only [ds, List.mem_cons, List.not_mem_nil, or_false] at hd
    rcases hd with rfl | rfl | rfl
    · exact ⟨_, ⟨[.type (.basic .int)], "a", 0, by simp, by decide, rfl⟩, by decide +kernel⟩
    · exact ⟨_, ⟨[.type (.basic .char), .punctuation .leftParen, .punctuation .asterisk], "p", 0,
        by simp, by decide, rfl⟩, by decide +kernel⟩
    · exact ⟨_, ⟨[.sign .signed, .type (.basic .double)], "d", 0, by simp, by decide, rfl⟩,
        by decide +kernel⟩
  exact ⟨hds, ((describe_consecutive 20).2 ds hds (Text.utf8 "x") .clear).2 1 _ rfl⟩

/-- A comment may end in the byte of a semicolon too. It is left in front of what stands behind
it, and reaches on into that. -/
theorem describe_commentBehind :
    let d := Text.utf8 "int a;//;"
    let b := Text.utf8 "int b;"
    let tokens := [.type (.basic .int), .identifier "a", .punctuation .semicolon]
    d.getLast? = some ';'.toUInt8 ∧ IsStatement 20 tokens ∧
      (readTokens (.ofBytes d)).1 = tokens.map .ok ∧
      (describe 20 (.ofBytes (d ++ b)) .unbounded (some .clear)).rest ≠ .ofBytes b ∧
      (describe 20 (describe 20 (.ofBytes (d ++ b)) .unbounded (some .clear)).rest .unbounded
        (some .clear)).status = .endOfInput ∧
      (describe 20 (.ofBytes b) .unbounded (some .clear)).status = .ok := by
  intro d b tokens
  have htokens : IsStatement 20 tokens := ⟨[.type (.basic .int)], "a", 0, by simp, by decide, rfl⟩
  have hall : (readTokens (.ofBytes d)).1 = tokens.map .ok := by decide +kernel
  exact ⟨by decide +kernel, htokens, hall, by decide +kernel, by decide +kernel, by decide +kernel⟩

end CDeclarations
