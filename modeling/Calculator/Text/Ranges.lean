/-!
# Ranges of code points

* `Ranges`: a character class as a sorted list of disjoint ranges.
* `Ranges.covers`: membership, which stops at the first range that lies above.
* `Ranges.exists_of_covers`: what is covered lies in one of the ranges.
-/

namespace Calculator.Text

/-- Ranges of code points in ascending order, both ends included. -/
abbrev Ranges := List (Nat × Nat)

/-- The code point lies in one of the ranges. -/
def Ranges.covers : Ranges → Nat → Bool
  | [], _ => false
  | (first, last) :: rest, n =>
      if n < first then false
      else if n ≤ last then true
      else Ranges.covers rest n

theorem Ranges.exists_of_covers {table : Ranges} {n : Nat} (h : table.covers n = true) :
    ∃ r ∈ table, r.1 ≤ n ∧ n ≤ r.2 := by
  induction table with
  | nil => simp [covers] at h
  | cons row rest ih =>
    obtain ⟨first, last⟩ := row
    rw [covers] at h
    split at h
    · cases h
    · split at h
      · exact ⟨(first, last), List.mem_cons_self, by omega, by omega⟩
      · obtain ⟨r, hr, hn⟩ := ih h
        exact ⟨r, List.mem_cons_of_mem _ hr, hn⟩

end Calculator.Text
