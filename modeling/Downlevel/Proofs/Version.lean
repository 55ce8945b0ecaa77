/-
# Downlevel.Proofs.Version — the order of versions

Versions are ordered by their major number and then by their minor number (`Before`), and
that is the order of their ranks (`rank_lt_rank`). The earlier of two versions is their
minimum, so that lowering a version in steps is lowering it at once (`earlier_assoc`).
-/
import Downlevel.Version

namespace Downlevel.Version

set_option autoImplicit false

/-- The version comes first: by its major number, or by its minor number if those agree. -/
def Before (a b : Version) : Prop :=
  a.major < b.major ∨ a.major = b.major ∧ a.minor < b.minor

theorem rank_lt_rank {a b : Version} : a.rank < b.rank ↔ a.Before b := by
  have minorA := a.minor.toNat_lt
  have minorB := b.minor.toNat_lt
  unfold rank Before
  rw [UInt16.lt_iff_toNat_lt, UInt16.lt_iff_toNat_lt, ← UInt16.toNat_inj]
  omega

theorem rank_inj {a b : Version} (same : a.rank = b.rank) : a = b := by
  have minorA := a.minor.toNat_lt
  have minorB := b.minor.toNat_lt
  obtain ⟨major, minor⟩ := a
  obtain ⟨major', minor'⟩ := b
  unfold rank at same
  simp only at same minorA minorB
  rw [mk.injEq, ← UInt16.toNat_inj, ← UInt16.toNat_inj]
  omega

theorem rank_earlier (a b : Version) : (a.earlier b).rank = min a.rank b.rank := by
  unfold earlier
  split
  · omega
  · omega

/-- Being lowered twice is being lowered to the earlier of the two. -/
theorem earlier_assoc (a b c : Version) : (a.earlier b).earlier c = a.earlier (b.earlier c) := by
  apply rank_inj
  rw [rank_earlier, rank_earlier, rank_earlier, rank_earlier]
  omega

theorem earlier_self (a : Version) : a.earlier a = a := by
  apply rank_inj
  rw [rank_earlier]
  omega

/-- The earlier of two versions is their minimum. -/
theorem earlier_cases (a b : Version) :
    b.Before a ∧ a.earlier b = b ∨ ¬ b.Before a ∧ a.earlier b = a := by
  unfold earlier
  by_cases later : b.rank < a.rank
  · exact .inl ⟨rank_lt_rank.mp later, if_pos later⟩
  · exact .inr ⟨fun before => later (rank_lt_rank.mpr before), if_neg later⟩

/-- An earlier version has no more linkage than a later one. -/
theorem dynamicLinkage_of_earlier {a b : Version} (linkage : (a.earlier b).dynamicLinkage = true) :
    a.dynamicLinkage = true := by
  have bounded : (a.earlier b).major.toNat ≤ a.major.toNat := by
    rcases earlier_cases a b with ⟨before, same⟩ | ⟨-, same⟩
    · rw [same]
      rcases before with less | ⟨equal, -⟩
      · exact Nat.le_of_lt (UInt16.lt_iff_toNat_lt.mp less)
      · exact Nat.le_of_eq (congrArg UInt16.toNat equal)
    · exact Nat.le_of_eq (congrArg (fun version : Version => version.major.toNat) same)
  unfold dynamicLinkage at linkage ⊢
  rw [decide_eq_true_eq] at linkage ⊢
  omega

end Downlevel.Version
