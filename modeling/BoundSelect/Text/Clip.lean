/-!
# Clipping

A text that must not take more than so many bytes is cut between two characters, never inside one:
from the last byte that may be taken, one steps back to where a character ends.
-/

set_option autoImplicit false

namespace BoundSelect.Text

/-- Steps back from a number of bytes until no character is cut there. -/
def backOff (s : String) : Nat → Nat
  | 0 => 0
  -- the byte behind the place tells whether one is
  | n + 1 => if String.Pos.Raw.IsValid s ⟨n + 1⟩ then n + 1 else backOff s n

theorem isValid_backOff (s : String) (n : Nat) : String.Pos.Raw.IsValid s ⟨backOff s n⟩ := by
  induction n with
  | zero => exact String.Pos.Raw.isValid_zero
  | succ n ih =>
      rw [backOff]
      split
      · next h => exact h
      · exact ih

/-- The front of a text within `room` bytes. A text that takes no more stays as it is. -/
def clip (room : Nat) (s : String) : String :=
  if s.utf8ByteSize ≤ room then s
  else (s.sliceTo ⟨⟨backOff s room⟩, isValid_backOff s room⟩).copy

section

variable {room : Nat} {s : String}

theorem clip_of_le (h : s.utf8ByteSize ≤ room) : clip room s = s := if_pos h

theorem clip_of_lt (h : room < s.utf8ByteSize) :
    clip room s = (s.sliceTo ⟨⟨backOff s room⟩, isValid_backOff s room⟩).copy :=
  if_neg (Nat.not_le_of_lt h)

end

end BoundSelect.Text
