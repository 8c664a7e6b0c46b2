import StackMachine.Fault

namespace StackMachine

/-- Offsets by the hashes of names, which is all that is known of a name. -/
structure Labels where
  capacity : Nat
  /-- Hashes and offsets, in the order of the first definitions. -/
  entries : List (UInt64 × Nat)
  deriving Repr, DecidableEq

namespace Labels

def empty (capacity : Nat) : Labels :=
  ⟨capacity, []⟩

def size (labels : Labels) : Nat :=
  labels.entries.length

def lookup (hash : UInt64) : List (UInt64 × Nat) → Option Nat
  | [] => none
  | (other, offset) :: rest => if other = hash then some offset else lookup hash rest

/-- Gives the first entry with a hash a new offset. -/
def move (hash : UInt64) (offset : Nat) : List (UInt64 × Nat) → List (UInt64 × Nat)
  | [] => []
  | (other, old) :: rest =>
    if other = hash then (other, offset) :: rest else (other, old) :: move hash offset rest

def get? (labels : Labels) (name : List Char) : Option Nat :=
  lookup (Fnv.ofChars name) labels.entries

/-- Defining a label again moves it; only a new one counts against the capacity. -/
def define (labels : Labels) (name : List Char) (offset : Nat) : Except Fault Labels :=
  let hash := Fnv.ofChars name
  if (lookup hash labels.entries).isSome then
    .ok { labels with entries := move hash offset labels.entries }
  else if labels.capacity ≤ labels.size then .error (.tooManyLabels labels.capacity)
  else .ok { labels with entries := labels.entries ++ [(hash, offset)] }

@[simp] theorem length_move (hash : UInt64) (offset : Nat) (entries : List (UInt64 × Nat)) :
    (move hash offset entries).length = entries.length := by
  induction entries with
  | nil => rfl
  | cons entry rest ih =>
    simp only [move]
    split <;> simp [ih]

end Labels

end StackMachine
