import CDeclarations.Token.Basic

namespace CDeclarations

/-- A stack of tokens, the top first, with room for so many more. -/
structure TokenStack where
  tokens : List Token
  room : Nat
  deriving DecidableEq

namespace TokenStack

/-- The capacity of a stack for which none is asked. -/
def defaultCapacity : Nat := 20

/-- An empty stack. There is taken to be memory for whatever capacity is asked for: a machine that
has none for it gives up before anything is read, and of that nothing is said here. -/
def withCapacity (capacity : Nat) : TokenStack := ⟨[], capacity⟩

def size (s : TokenStack) : Nat := s.tokens.length

def capacity (s : TokenStack) : Nat := s.size + s.room

def isEmpty (s : TokenStack) : Bool := s.tokens.isEmpty

def isFull (s : TokenStack) : Bool := s.room = 0

def peek? (s : TokenStack) : Option Token := s.tokens.head?

/-- Fails on a full stack. -/
def push? (s : TokenStack) (token : Token) : Option TokenStack :=
  match s.room with
  | 0 => none
  | room + 1 => some ⟨token :: s.tokens, room⟩

def pop? (s : TokenStack) : Option (Token × TokenStack) :=
  match s.tokens with
  | [] => none
  | token :: tokens => some (token, ⟨tokens, s.room + 1⟩)

@[simp] theorem tokens_withCapacity (capacity : Nat) : (withCapacity capacity).tokens = [] := rfl

theorem push?_eq_none_iff {s : TokenStack} {token : Token} :
    s.push? token = none ↔ s.isFull := by
  obtain ⟨tokens, _ | room⟩ := s <;> simp [push?, isFull]

theorem push?_eq_some_iff {s t : TokenStack} {token : Token} :
    s.push? token = some t ↔ t.tokens = token :: s.tokens ∧ s.room = t.room + 1 := by
  obtain ⟨tokens, _ | room⟩ := s <;> obtain ⟨tokens', room'⟩ := t
  · simp [push?]
  · simp only [push?, Option.some.injEq, TokenStack.mk.injEq, Nat.add_right_cancel_iff]
    exact ⟨fun h => ⟨h.1.symm, h.2⟩, fun h => ⟨h.1.symm, h.2⟩⟩

/-- Neither a push nor a pop changes how much a stack can hold. -/
theorem capacity_push? {s t : TokenStack} {token : Token} (h : s.push? token = some t) :
    t.capacity = s.capacity := by
  obtain ⟨htokens, hroom⟩ := push?_eq_some_iff.mp h
  simp only [capacity, size, htokens, hroom, List.length_cons]
  omega

/-- What was pushed last comes off first. -/
theorem pop?_push? {s t : TokenStack} {token : Token} (h : s.push? token = some t) :
    t.pop? = some (token, s) := by
  obtain ⟨tokens, _ | room⟩ := s
  · cases h
  · cases h; rfl

end TokenStack

end CDeclarations
