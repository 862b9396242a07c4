import Mathlib.Data.List.Basic

/-! # Reading pieces of a byte string

A reader takes a byte string and an offset, and gives a value and the offset after it. `Reads r piece a`:
the reader `r` gives `a` wherever `piece` stands; the rest of the string does not matter. A string of
several pieces is read by following the offset, `At.next`. -/

namespace HexDns.Lib.Readers

variable {α β ε : Type}

/-- From the offset on, the string is `rest`. -/
structure At (data : List β) (offset : ℕ) (rest : List β) : Prop where
  le : offset ≤ data.length
  drop : data.drop offset = rest

theorem At.start (data : List β) : At data 0 data := ⟨Nat.zero_le _, rfl⟩

theorem At.next {data piece rest : List β} {offset : ℕ} (h : At data offset (piece ++ rest)) :
    At data (offset + piece.length) rest := by
  have hlen : data.length - offset = piece.length + rest.length := by
    rw [← List.length_drop, h.drop, List.length_append]
  have hle := h.le
  refine ⟨by omega, ?_⟩
  rw [← List.drop_drop, h.drop, List.drop_left]

/-- The reader gives `a` where `piece` stands. -/
def Reads (r : List β → ℕ → Except ε (α × ℕ)) (piece : List β) (a : α) : Prop :=
  ∀ data rest offset, At data offset (piece ++ rest) → r data offset = .ok (a, offset + piece.length)

/-- What is read at the start of a string, and where the reading goes on. -/
theorem Reads.next {r : List β → ℕ → Except ε (α × ℕ)} {piece : List β} {a : α} (hr : Reads r piece a)
    {data rest : List β} {offset : ℕ} (h : At data offset (piece ++ rest)) :
    ∃ offset', r data offset = .ok (a, offset') ∧ At data offset' rest :=
  ⟨_, hr data rest offset h, h.next⟩

end HexDns.Lib.Readers
