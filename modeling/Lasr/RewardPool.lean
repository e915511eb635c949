import Mathlib.Algebra.BigOperators.Ring.Finset
import Mathlib.Algebra.Order.BigOperators.Group.Finset
import Mathlib.Data.Fintype.BigOperators
import Mathlib.Tactic.Ring

/-!
# Reward pools

A pool pays its members in proportion to their shares, without a loop over them. It has a
running index, the reward of one share since the beginning, and each member remembers the
index up to which it was settled (`debt`) and what it was settled for (`credit`). Rewards are
kept in fractions of a unit, `scale` to the unit, and a member gets whole units.

What the pool owes a member (`Member.owed`) is exact, what is due to it (`Member.due`) is
rounded down. A pool is `Backed` if its pot covers what it owes to all. Each way a pool moves
keeps that : the index rises and the pot with it (`Backed.accrue`), or one member is changed and
the pot pays for the difference (`Backed.set`). The pot then has the whole units that are due to
a member (`Backed.scale_mul_due_le`).
-/

set_option linter.unusedSectionVars false

/-- A sum with one argument replaced. -/
theorem Fintype.sum_update_add {ι α : Type} [Fintype ι] [DecidableEq ι] (f : α → ℕ) (g : ι → α)
    (i : ι) (x : α) : (∑ j, f (Function.update g i x j)) + f (g i) = (∑ j, f (g j)) + f x := by
  have hcomp : (fun j => f (Function.update g i x j)) = Function.update (f ∘ g) i (f x) :=
    funext fun j => Function.apply_update (fun _ => f) g i x j
  have hold := Finset.sum_sdiff (Finset.subset_univ {i}) (f := fun j => f (g j))
  rw [Finset.sum_singleton] at hold
  rw [hcomp, Finset.sum_update_of_mem (Finset.mem_univ i), ← hold]
  simp only [Function.comp_apply]
  omega

namespace RewardPool

/-- A member of a pool. -/
structure Member where
  /-- What it has in the pool. -/
  share : ℕ
  /-- The index up to which it was settled. -/
  debt : ℕ
  /-- The whole units it was settled for and has not been paid. -/
  credit : ℕ

namespace Member

variable {scale index index' : ℕ} {m : Member}

/-- What the pool owes a member at an index, in fractions of a unit. -/
def owed (scale index : ℕ) (m : Member) : ℕ :=
  scale * m.credit + m.share * (index - m.debt)

/-- The whole units due to a member at an index. -/
def due (scale index : ℕ) (m : Member) : ℕ :=
  m.share * (index - m.debt) / scale + m.credit

/-- Settle a member at an index. -/
def settle (scale index : ℕ) (m : Member) : Member :=
  { m with debt := index, credit := m.due scale index }

theorem scale_mul_due_le : scale * m.due scale index ≤ m.owed scale index := by
  have hfloor := Nat.mul_div_le (m.share * (index - m.debt)) scale
  unfold due owed
  rw [Nat.mul_add]
  omega

theorem owed_settle_le : (m.settle scale index).owed scale index ≤ m.owed scale index := by
  have hdue : scale * m.due scale index ≤ m.owed scale index := scale_mul_due_le
  simpa [settle, owed] using hdue

/-- Settling takes nothing away from what is due. -/
@[simp] theorem due_settle : (m.settle scale index).due scale index = m.due scale index := by
  simp [settle, due]

theorem due_mono (h : index ≤ index') : m.due scale index ≤ m.due scale index' := by
  unfold due
  have hmul : m.share * (index - m.debt) ≤ m.share * (index' - m.debt) :=
    Nat.mul_le_mul_left _ (Nat.sub_le_sub_right h _)
  have hdiv := Nat.div_le_div_right (c := scale) hmul
  omega

/-- A member without a share has its credit. -/
theorem due_of_share_eq_zero (h : m.share = 0) : m.due scale index = m.credit := by
  simp [due, h]

/-- What a rise of the index adds to what is owed. -/
theorem owed_add (h : m.debt ≤ index) (q : ℕ) :
    m.owed scale (index + q) = m.owed scale index + m.share * q := by
  unfold owed
  rw [Nat.sub_add_comm h, Nat.mul_add]
  omega

end Member

end RewardPool

/-- A pool, with its members by name. -/
structure RewardPool (ι : Type) where
  index : ℕ
  /-- What is set aside for the members, in fractions of a unit. -/
  pot : ℕ
  member : ι → RewardPool.Member

namespace RewardPool

variable {ι : Type} [Fintype ι] [DecidableEq ι] {scale : ℕ} {p : RewardPool ι}

/-- The shares of all members. -/
def total (p : RewardPool ι) : ℕ :=
  ∑ i, (p.member i).share

/-- What is owed to all members. -/
def owed (scale : ℕ) (p : RewardPool ι) : ℕ :=
  ∑ i, (p.member i).owed scale p.index

/-- No member is settled ahead of the index, and the pot covers what is owed. -/
structure Backed (scale : ℕ) (p : RewardPool ι) : Prop where
  debt_le : ∀ i, (p.member i).debt ≤ p.index
  owed_le : p.owed scale ≤ p.pot

/-- The index rises by `q`, and the pot by `q` for each share. -/
def accrue (q : ℕ) (p : RewardPool ι) : RewardPool ι :=
  { p with index := p.index + q, pot := p.pot + p.total * q }

/-- Another member in the place of `i`, and another pot. -/
def set (p : RewardPool ι) (i : ι) (m : Member) (pot : ℕ) : RewardPool ι :=
  { p with member := Function.update p.member i m, pot := pot }

@[simp] theorem total_accrue (q : ℕ) : (p.accrue q).total = p.total := rfl

theorem Backed.accrue (h : p.Backed scale) (q : ℕ) : (p.accrue q).Backed scale := by
  refine ⟨fun i => (h.debt_le i).trans (Nat.le_add_right _ _), ?_⟩
  calc (p.accrue q).owed scale
      = ∑ i, ((p.member i).owed scale p.index + (p.member i).share * q) :=
        Finset.sum_congr rfl fun i _ => Member.owed_add (h.debt_le i) q
    _ = p.owed scale + p.total * q := by
        rw [Finset.sum_add_distrib, ← Finset.sum_mul]
        rfl
    _ ≤ p.pot + p.total * q := Nat.add_le_add_right h.owed_le _

/-- A member is changed, and what is owed to it does not rise by more than the pot. -/
theorem Backed.set {i : ι} {m : Member} {pot : ℕ} (h : p.Backed scale) (hdebt : m.debt ≤ p.index)
    (howed : m.owed scale p.index + p.pot ≤ (p.member i).owed scale p.index + pot) :
    (p.set i m pot).Backed scale := by
  refine ⟨fun j => ?_, ?_⟩
  · rcases eq_or_ne j i with rfl | hne
    · simpa [RewardPool.set] using hdebt
    · simpa [RewardPool.set, hne] using h.debt_le j
  · have hsum := Fintype.sum_update_add (Member.owed scale p.index) p.member i m
    have hle := h.owed_le
    unfold RewardPool.owed at hle ⊢
    simp only [RewardPool.set]
    omega

theorem total_set (i : ι) (m : Member) (pot : ℕ) :
    (p.set i m pot).total + (p.member i).share = p.total + m.share :=
  Fintype.sum_update_add Member.share p.member i m

/-- The pot has what is owed to one member. -/
theorem Backed.member_owed_le (h : p.Backed scale) (i : ι) :
    (p.member i).owed scale p.index ≤ p.pot :=
  (Finset.single_le_sum (f := fun i => (p.member i).owed scale p.index)
    (fun _ _ => Nat.zero_le _) (Finset.mem_univ i)).trans h.owed_le

/-- The pot has the whole units that are due to one member. -/
theorem Backed.scale_mul_due_le (h : p.Backed scale) (i : ι) :
    scale * (p.member i).due scale p.index ≤ p.pot :=
  Member.scale_mul_due_le.trans (h.member_owed_le i)

end RewardPool
