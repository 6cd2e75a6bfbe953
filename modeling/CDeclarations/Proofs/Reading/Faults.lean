import CDeclarations.Proofs.Reading.Errors

namespace CDeclarations

/-- The fault that a read brings. An interrupted read is tried again and brings none. -/
def ReadEvent.fault? : ReadEvent → Option ReadFault
  | .fault cause => if cause = .interrupted then none else some cause
  | _ => none

def faults (events : List ReadEvent) : List ReadFault := events.filterMap ReadEvent.fault?

/-- Reads without a fault, or up to the first fault and no further. -/
def UpToFault (used : List ReadEvent) : Option ReadFault → Prop
  | none => faults used = []
  | some cause => cause ≠ .interrupted ∧ ∃ front, used = front ++ [.fault cause] ∧ faults front = []

/-- The reads in front of `left` were taken, up to the fault if there is one. -/
def Took (events : List ReadEvent) (fault : Option ReadFault) (left : List ReadEvent) : Prop :=
  ∃ used, events = used ++ left ∧ UpToFault used fault

theorem faults_append (a b : List ReadEvent) : faults (a ++ b) = faults a ++ faults b :=
  List.filterMap_append

theorem faults_bytes (bytes : List UInt8) : faults (bytes.map .byte) = [] := by
  induction bytes with
  | nil => rfl
  | cons b bytes ih => exact ih

section Took

variable {events between left more used : List ReadEvent} {event : ReadEvent}
  {fault : Option ReadFault}

theorem UpToFault.faults_eq (h : UpToFault used fault) : faults used = fault.toList := by
  cases fault with
  | none => exact h
  | some cause =>
    obtain ⟨hcause, front, rfl, hfront⟩ := h
    have hlast : faults [.fault cause] = [cause] := by simp [faults, ReadEvent.fault?, hcause]
    rw [faults_append, hfront, hlast]
    rfl

theorem UpToFault.append (hused : faults used = []) (h : UpToFault more fault) :
    UpToFault (used ++ more) fault := by
  cases fault with
  | none =>
    have hmore : faults more = [] := h
    show faults (used ++ more) = []
    rw [faults_append, hused, hmore, List.append_nil]
  | some cause =>
    obtain ⟨hcause, front, rfl, hfront⟩ := h
    refine ⟨hcause, used ++ front, (List.append_assoc ..).symm, ?_⟩
    rw [faults_append, hused, hfront, List.append_nil]

theorem Took.nothing (events : List ReadEvent) : Took events none events := ⟨[], rfl, rfl⟩

theorem Took.suffix (h : Took events fault left) : left <:+ events := by
  obtain ⟨used, hevents, -⟩ := h
  exact ⟨used, hevents.symm⟩

theorem Took.trans (h : Took events none between) (hmore : Took between fault left) :
    Took events fault left := by
  obtain ⟨used, rfl, hused⟩ := h
  obtain ⟨more, rfl, hmore⟩ := hmore
  exact ⟨used ++ more, (List.append_assoc ..).symm, .append hused hmore⟩

theorem Took.cons (hevent : event.fault? = none) (h : Took events fault left) :
    Took (event :: events) fault left := by
  have hone : Took (event :: events) none events :=
    ⟨[event], rfl, by simp [UpToFault, faults, hevent]⟩
  exact hone.trans h

/-- Reads that were taken without a fault had none among the first of them either. -/
theorem Took.of_suffix (h : Took events none left) (hleft : left <:+ more)
    (hmore : more <:+ events) : Took events none more := by
  obtain ⟨used, rfl, hused⟩ := h
  obtain ⟨middle, rfl⟩ := hleft
  obtain ⟨front, hfront⟩ := hmore
  have hsplit : front ++ middle = used := by
    rwa [← List.append_assoc, List.append_left_inj] at hfront
  have hnone : faults (front ++ middle) = [] := by
    rw [hsplit]
    exact hused
  rw [faults_append, List.append_eq_nil_iff] at hnone
  exact ⟨front, hfront.symm, hnone.1⟩

end Took

/-- What went wrong, if anything did. -/
def errorOf? {ε α : Type} : Except ε α → Option ε
  | .ok _ => none
  | .error e => some e

/-- A scan takes reads up to the first fault, and fails with that. -/
theorem Scanner.took_run {σ α : Type} (m : Scanner σ α) (state : σ) (events : List ReadEvent) :
    Took events (errorOf? (m.run state events).1) (m.run state events).2.events := by
  induction events generalizing state with
  | nil => exact .nothing []
  | cons event events ih =>
    cases event with
    | byte b =>
      rw [run]
      split
      · exact .cons rfl (ih _)
      · exact .cons rfl (.nothing events)
      · exact .nothing _
    | fault cause =>
      rw [run]
      by_cases hcause : cause = .interrupted
      · rw [if_pos hcause]
        have hnone : (ReadEvent.fault cause).fault? = none := if_pos hcause
        exact .cons hnone (ih state)
      · rw [if_neg hcause]
        exact ⟨[.fault cause], rfl, hcause, [], rfl, rfl⟩
    | ended =>
      rw [run]
      split
      · exact .cons rfl (ih _)
      · exact .cons rfl (.nothing events)

/-- The fault that an error tells of. -/
def TokenError.fault? : TokenError → Option ReadFault
  | .readFailed cause => some cause
  | _ => none

/-- A reading of the stream took reads up to the first fault, and its error tells of that. -/
def Reading.Tells {α : Type} (r : Reading α) (s : ByteStream) : Prop :=
  Took s.events ((errorOf? r.1).bind TokenError.fault?) r.2.events

section Tells

variable {s : ByteStream}

theorem Reading.Tells.andThen {α β : Type} {first : Reading α}
    {second : α → ByteStream → Reading β} (hfirst : first.Tells s)
    (hsecond : ∀ a rest, first = (.ok a, rest) → (second a rest).Tells rest) :
    (first.andThen second).Tells s := by
  obtain ⟨e | a, rest⟩ := first
  · exact hfirst
  · exact Took.trans hfirst (hsecond a rest rfl)

/-- A scanner that finds no faults of its own tells of those of the source. -/
theorem Scanner.tells_read {σ α : Type} {m : Scanner σ (Except TokenError α)} {state : σ}
    (h : ∀ e rest, m.read state s = (.error e, rest) → e.fault? = none ∨
      ∃ cause, e = .readFailed cause ∧ m.run state s.events = (.error cause, rest)) :
    (m.read state s).Tells s := by
  have hrun := m.took_run state s.events
  unfold Scanner.read at h ⊢
  generalize m.run state s.events = answer at h hrun
  obtain ⟨cause | (e | a), rest⟩ := answer
  · exact hrun
  · rcases h e rest rfl with hnone | ⟨cause, -, hcause⟩
    · have htold : (errorOf? (Except.error (α := α) e)).bind TokenError.fault? = none := hnone
      show Took s.events _ rest.events
      rw [htold]
      exact hrun
    · cases hcause
  · exact hrun

theorem tells_skipGap (s : ByteStream) : (skipGap s).Tells s := by
  refine Scanner.tells_read fun e rest h => (error_of_skipGap h).imp_left ?_
  rintro rfl
  rfl

theorem tells_readText (goesOn : List UInt8 → UInt8 → Bool) (first : UInt8) (s : ByteStream) :
    (readText goesOn first s).Tells s := by
  refine Reading.Tells.andThen (Scanner.tells_read fun e rest h => ?_) fun text rest _ =>
    .nothing rest.events
  have hread : readText goesOn first s = (.error e, rest) := by rw [readText, h, Reading.andThen_error]
  refine (error_of_readText hread).imp_left ?_
  rintro rfl
  rfl

theorem tells_readWord (s : ByteStream) : (readWord s).Tells s := by
  have hskip := tells_skipGap s
  cases hgap : skipGap s with
  | mk found between =>
    rw [hgap] at hskip
    rcases found with e | _ | b
    · rw [readWord, readItem, hgap]
      exact hskip
    · rw [readWord, readItem, hgap]
      exact hskip
    · rw [readWord_of_found hgap]
      split
      · exact Took.trans hskip (tells_readText wordGoesOn b between)
      · show Took s.events none _
        split
        · exact hskip
        · rename_i hb
          obtain ⟨hheld, before, hevents⟩ := skipGap_found hgap hb
          obtain ⟨held, unread⟩ := between
          cases hheld
          have hleft : unread <:+ .byte b :: unread := List.suffix_cons _ _
          have hmore : .byte b :: unread <:+ s.events := by
            rw [hevents]
            exact List.suffix_append before _
          exact Took.of_suffix hskip hleft hmore

theorem tells_tokenOfWord (word : String) (s : ByteStream) : (tokenOfWord word s).Tells s := by
  unfold tokenOfWord
  split
  case h_5 => exact (tells_readWord s).andThen fun _ rest _ => .nothing rest.events
  all_goals exact .nothing s.events

/-- No fault is passed over, and none is told of that was not met. -/
theorem tells_nextToken (s : ByteStream) : (nextToken s).Tells s := by
  have hskip := tells_skipGap s
  cases hgap : skipGap s with
  | mk found between =>
    rw [hgap] at hskip
    rcases found with e | _ | b
    · rw [nextToken, hgap]
      exact hskip
    · rw [nextToken, hgap]
      exact hskip
    · rw [nextToken_of_found hgap]
      have htext : ∀ goesOn, b ≠ '/'.toUInt8 → (readText goesOn b ⟨none, between.unread⟩).Tells s := by
        intro goesOn hb
        obtain ⟨hheld, -⟩ := skipGap_found hgap hb
        obtain ⟨held, unread⟩ := between
        cases hheld
        exact Took.trans hskip (tells_readText goesOn b _)
      split
      · rename_i hstart
        have hword := htext wordGoesOn (ne_slash_of_isWordStart hstart)
        exact hword.andThen fun word rest _ => tells_tokenOfWord word rest
      · split
        · rename_i hdigit
          have hnumber := htext numberGoesOn (ne_slash_of_isDigit hdigit)
          exact hnumber.andThen fun _ rest _ => .nothing rest.events
        · split <;> exact hskip

/-- Whatever comes of a reading, the stream behind it is an end of what it was. -/
theorem nextToken_suffix (s : ByteStream) : (nextToken s).2.events <:+ s.events :=
  (tells_nextToken s).suffix

end Tells

end CDeclarations
