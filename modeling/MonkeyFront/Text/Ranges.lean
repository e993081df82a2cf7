namespace MonkeyFront

/-- Membership in a union of closed ranges that are listed in ascending order. -/
def inRanges : List (Nat × Nat) → Nat → Bool
  | [], _ => false
  | (low, high) :: rest, n => if n < low then false else n ≤ high || inRanges rest n

/-- Whether no range is empty and each lies above the one before. -/
def areAscending : List (Nat × Nat) → Bool
  | [] => true
  | [r] => r.1 ≤ r.2
  | r :: s :: rest => r.1 ≤ r.2 && r.2 < s.1 && areAscending (s :: rest)

theorem areAscending_tail {r : Nat × Nat} {rest : List (Nat × Nat)}
    (h : areAscending (r :: rest) = true) : areAscending rest = true := by
  cases rest with
  | nil => rfl
  | cons s rest =>
    simp only [areAscending, Bool.and_eq_true] at h
    exact h.2

theorem lt_of_areAscending {r s : Nat × Nat} {rest : List (Nat × Nat)}
    (h : areAscending (r :: rest) = true) (hs : s ∈ rest) : r.2 < s.1 := by
  induction rest generalizing r with
  | nil => cases hs
  | cons t rest ih =>
    have ht := areAscending_tail h
    simp only [areAscending, Bool.and_eq_true, decide_eq_true_eq] at h
    rcases List.mem_cons.1 hs with rfl | hs
    · exact h.1.2
    · have hle : t.1 ≤ t.2 := by
        cases rest <;> simp_all [areAscending]
      have := ih ht hs
      omega

theorem inRanges_iff {ranges : List (Nat × Nat)} {n : Nat} (h : areAscending ranges = true) :
    inRanges ranges n = true ↔ ∃ r ∈ ranges, r.1 ≤ n ∧ n ≤ r.2 := by
  induction ranges with
  | nil => simp [inRanges]
  | cons r rest ih =>
    have ih := ih (areAscending_tail h)
    simp only [inRanges, List.mem_cons]
    by_cases hn : n < r.1
    · simp only [hn, if_true, Bool.false_eq_true, false_iff]
      rintro ⟨s, rfl | hs, hsn, _⟩
      · omega
      · have := lt_of_areAscending h hs
        have : r.1 ≤ r.2 := by
          cases rest <;> simp_all [areAscending]
        omega
    · simp only [hn, if_false, Bool.or_eq_true, decide_eq_true_eq, ih]
      constructor
      · rintro (hh | ⟨s, hs, hsn⟩)
        · exact ⟨_, .inl rfl, by omega, hh⟩
        · exact ⟨s, .inr hs, hsn⟩
      · rintro ⟨s, rfl | hs, hsn⟩
        · exact .inl hsn.2
        · exact .inr ⟨s, hs, hsn⟩

end MonkeyFront
