import Lasr.Staking
import Lasr.RewardPool

/-!
# What a call to the staking contract does

The contract is a pool of rewards (`RollupStaking.pool`) : the shares are the stakes of those
that do not unstake, the index is `rewardPerTokenAccrued`, the pot `rewardsPendingAccumulated`.
An update reads off the index of the moment (`indexAt`) and settles one account at it
(`updateReward_eq_ok_iff`), as long as nothing overflows on the way (`UpdateFits`).

A call that does not revert is an update, its checks, and one change of the storage
(`Moves`). Everything about runs is read off that.
-/

set_option linter.unusedSectionVars false

namespace Lasr

open Staking

/-! ## The reward arithmetic -/

/-- The staker as a member of the pool of rewards. One that unstakes has no share in it. -/
def Staking.Staker.member (self : Staker) : RewardPool.Member where
  share := if self.unstakeStartTime = 0 then self.stakedAmount else 0
  debt := self.debtInRewards
  credit := self.earnedRewards

/-- The staker settled at an index, unless it unstakes. -/
def Staking.Staker.settled (self : Staker) (index : ℕ) : Staker :=
  if self.unstakeStartTime = 0 then
    { self with earnedRewards := self.member.due SCALE index, debtInRewards := index }
  else self

namespace Staking.Staker

variable {st : Staker} {scale index : ℕ}

theorem due_of_unstaking (h : st.unstakeStartTime ≠ 0) :
    st.member.due scale index = st.earnedRewards :=
  RewardPool.Member.due_of_share_eq_zero (if_neg h)

theorem settled_of_active (h : st.unstakeStartTime = 0) :
    st.settled index =
      { st with earnedRewards := st.member.due SCALE index, debtInRewards := index } :=
  if_pos h

theorem settled_of_unstaking (h : st.unstakeStartTime ≠ 0) :
    st.settled index = st :=
  if_neg h

@[simp] theorem settled_stakedAmount : (st.settled index).stakedAmount = st.stakedAmount := by
  unfold settled
  split <;> rfl

@[simp] theorem settled_unstakeStartTime :
    (st.settled index).unstakeStartTime = st.unstakeStartTime := by
  unfold settled
  split <;> rfl

@[simp] theorem settled_earnedRewards :
    (st.settled index).earnedRewards = st.member.due SCALE index := by
  by_cases hactive : st.unstakeStartTime = 0
  · rw [settled_of_active hactive]
  · rw [settled_of_unstaking hactive, due_of_unstaking hactive]

end Staking.Staker

namespace RollupStaking

/-- The contract as a pool of rewards. -/
def pool (self : RollupStaking) : RewardPool Address where
  index := self.rewardPerTokenAccrued
  pot := self.rewardsPendingAccumulated
  member a := (self.stakers a).member

/-- The rewards of the time since the last update, in fractions of a unit. -/
def rewardsSince (self : RollupStaking) (blockTimestamp : ℕ) : ℕ :=
  (self.lastApplicableTime blockTimestamp - self.lastUpdateTime) * self.rewardRatePerBlock * SCALE

/-- What a share gets of them. -/
def shareSince (self : RollupStaking) (blockTimestamp : ℕ) : ℕ :=
  self.rewardsSince blockTimestamp / self.totalRewardsAccrued

/-- The reward of one share at a time. -/
def indexAt (self : RollupStaking) (blockTimestamp : ℕ) : ℕ :=
  self.rewardPerTokenAccrued + self.shareSince blockTimestamp

/-- The whole units that are due to an account at a time. -/
def earnedAt (self : RollupStaking) (blockTimestamp : ℕ) (account : Address) : ℕ :=
  (self.stakers account).member.due SCALE (self.indexAt blockTimestamp)

/-- The storage with the rewards up to a time. -/
def accrued (self : RollupStaking) (blockTimestamp : ℕ) : RollupStaking :=
  { self with
    rewardPerTokenAccrued := self.indexAt blockTimestamp
    rewardsPendingAccumulated := self.rewardsPendingAccumulated +
      self.totalRewardsAccrued * self.shareSince blockTimestamp
    lastUpdateTime := self.lastApplicableTime blockTimestamp }

/-- What `updateReward` makes of the storage. -/
def updated (self : RollupStaking) (blockTimestamp : ℕ) (account : Address) : RollupStaking :=
  (self.accrued blockTimestamp).setStaker account
    ((self.stakers account).settled (self.indexAt blockTimestamp))

/-- The rewards since the last update do not overflow. -/
structure RewardsFit (s : RollupStaking) (blockTimestamp : ℕ) : Prop where
  clock : s.lastUpdateTime ≤ s.lastApplicableTime blockTimestamp
  rate : (s.lastApplicableTime blockTimestamp - s.lastUpdateTime) * s.rewardRatePerBlock < WORD
  rewards : s.rewardsSince blockTimestamp < WORD

/-- Neither does what an account gets of them. -/
structure EarnedFits (s : RollupStaking) (index : ℕ) (account : Address) : Prop where
  debt : (s.stakers account).debtInRewards ≤ index
  product : (s.stakers account).stakedAmount *
    (index - (s.stakers account).debtInRewards) < WORD
  earned : (s.stakers account).member.due SCALE index < WORD

variable {s s' : RollupStaking} {t : ℕ} {a : Address}

@[simp] theorem stakers_setStaker (staker : Staker) :
    (s.setStaker a staker).stakers = Function.update s.stakers a staker := rfl

theorem shareSince_of_idle (h : s.totalRewardsAccrued = 0) : s.shareSince t = 0 := by
  rw [shareSince, h, Nat.div_zero]

theorem rewardPerToken_eq_ok_iff {n : ℕ} : s.rewardPerToken t = .ok n ↔
    (s.totalRewardsAccrued ≠ 0 → s.RewardsFit t ∧ s.indexAt t < WORD) ∧ s.indexAt t = n := by
  unfold rewardPerToken
  by_cases hidle : s.totalRewardsAccrued = 0
  · simp [hidle, indexAt, shareSince_of_idle hidle, pure, Except.pure]
  · simp only [hidle, if_false, Except.bind_eq_ok_iff, sub_eq_ok_iff, mul_eq_ok_iff, add_eq_ok_iff]
    constructor
    · rintro ⟨_, ⟨hclock, rfl⟩, _, ⟨hrate, rfl⟩, _, ⟨hrewards, rfl⟩, hindex, rfl⟩
      exact ⟨fun _ => ⟨⟨hclock, hrate, hrewards⟩, hindex⟩, rfl⟩
    · rintro ⟨hfit, rfl⟩
      obtain ⟨⟨hclock, hrate, hrewards⟩, hindex⟩ := hfit hidle
      exact ⟨_, ⟨hclock, rfl⟩, _, ⟨hrate, rfl⟩, _, ⟨hrewards, rfl⟩, hindex, rfl⟩

theorem calculatePendingRewards_eq_ok_iff {n : ℕ} : s.calculatePendingRewards t = .ok n ↔
    (s.totalRewardsAccrued ≠ 0 → s.RewardsFit t ∧
      s.rewardsPendingAccumulated + s.rewardsSince t < WORD) ∧
    s.rewardsPendingAccumulated + s.totalRewardsAccrued * s.shareSince t = n := by
  unfold calculatePendingRewards calculateFullPendingRewards calculateTimeDifference
  by_cases hidle : s.totalRewardsAccrued = 0
  · simp [hidle, pure, Except.pure]
  · simp only [hidle, if_false, Except.bind_eq_ok_iff, sub_eq_ok_iff, mul_eq_ok_iff, add_eq_ok_iff]
    have hdiv := Nat.div_add_mod (s.rewardsSince t) s.totalRewardsAccrued
    have hmod := Nat.mod_le (s.rewardsSince t) s.totalRewardsAccrued
    have hround : s.rewardsPendingAccumulated + s.rewardsSince t -
        s.rewardsSince t % s.totalRewardsAccrued =
          s.rewardsPendingAccumulated + s.totalRewardsAccrued * s.shareSince t := by
      unfold shareSince
      omega
    constructor
    · rintro ⟨_, ⟨_, ⟨hclock, rfl⟩, _, ⟨hrate, rfl⟩, hrewards, rfl⟩, _, ⟨hsum, rfl⟩, hle, rfl⟩
      exact ⟨fun _ => ⟨⟨hclock, hrate, hrewards⟩, hsum⟩, hround.symm⟩
    · rintro ⟨hfit, rfl⟩
      obtain ⟨⟨hclock, hrate, hrewards⟩, hsum⟩ := hfit hidle
      exact ⟨_, ⟨_, ⟨hclock, rfl⟩, _, ⟨hrate, rfl⟩, hrewards, rfl⟩, _, ⟨hsum, rfl⟩,
        hmod.trans (Nat.le_add_left _ _), hround⟩

theorem calculateEarnedRewards_of_unstaking (h : (s.stakers a).unstakeStartTime ≠ 0) :
    s.calculateEarnedRewards t a = .ok (s.stakers a).earnedRewards := by
  unfold calculateEarnedRewards
  rw [if_pos h]
  rfl

theorem calculateEarnedRewards_eq_ok_iff {n : ℕ} : s.calculateEarnedRewards t a = .ok n ↔
    ((s.stakers a).unstakeStartTime = 0 →
      (s.totalRewardsAccrued ≠ 0 → s.RewardsFit t ∧ s.indexAt t < WORD) ∧
        s.EarnedFits (s.indexAt t) a) ∧
    (s.stakers a).member.due SCALE (s.indexAt t) = n := by
  by_cases hactive : (s.stakers a).unstakeStartTime = 0
  · have hshare : (s.stakers a).member.share = (s.stakers a).stakedAmount := if_pos hactive
    unfold calculateEarnedRewards
    simp only [hactive, ne_eq, not_true_eq_false, if_false, Except.bind_eq_ok_iff,
      rewardPerToken_eq_ok_iff, sub_eq_ok_iff, mul_eq_ok_iff, add_eq_ok_iff]
    constructor
    · rintro ⟨_, ⟨hfit, rfl⟩, _, ⟨hdebt, rfl⟩, _, ⟨hproduct, rfl⟩, hearned, rfl⟩
      have hdue : (s.stakers a).member.due SCALE (s.indexAt t) = (s.stakers a).stakedAmount *
          (s.indexAt t - (s.stakers a).debtInRewards) / SCALE + (s.stakers a).earnedRewards := by
        rw [RewardPool.Member.due, hshare]
        rfl
      exact ⟨fun _ => ⟨hfit, hdebt, hproduct, hdue ▸ hearned⟩, hdue⟩
    · rintro ⟨hfit, rfl⟩
      obtain ⟨hrewards, hdebt, hproduct, hearned⟩ := hfit trivial
      rw [RewardPool.Member.due, hshare] at hearned ⊢
      exact ⟨_, ⟨hrewards, rfl⟩, _, ⟨hdebt, rfl⟩, _, ⟨hproduct, rfl⟩, hearned, rfl⟩
  · rw [calculateEarnedRewards_of_unstaking hactive, Staker.due_of_unstaking hactive]
    simp [hactive]

/-- Nothing overflows in an update. -/
structure UpdateFits (s : RollupStaking) (blockTimestamp : ℕ) (account : Address) : Prop where
  rewards : s.totalRewardsAccrued ≠ 0 → s.RewardsFit blockTimestamp
  index : s.totalRewardsAccrued ≠ 0 → s.indexAt blockTimestamp < WORD
  pending : s.totalRewardsAccrued ≠ 0 →
    s.rewardsPendingAccumulated + s.rewardsSince blockTimestamp < WORD
  earned : (s.stakers account).unstakeStartTime = 0 →
    s.EarnedFits (s.indexAt blockTimestamp) account

/-- No time passes between an update and a reading in the same block. -/
theorem rewardsSince_accrued : (s.accrued t).rewardsSince t = 0 := by
  have hzero : (s.accrued t).lastApplicableTime t - (s.accrued t).lastUpdateTime = 0 :=
    Nat.sub_self _
  rw [rewardsSince, hzero, Nat.zero_mul, Nat.zero_mul]

theorem indexAt_accrued : (s.accrued t).indexAt t = s.indexAt t := by
  rw [indexAt, shareSince, rewardsSince_accrued, Nat.zero_div]
  exact Nat.add_zero _

theorem rewardsFit_accrued : (s.accrued t).RewardsFit t := by
  have hzero : (s.accrued t).lastApplicableTime t - (s.accrued t).lastUpdateTime = 0 :=
    Nat.sub_self _
  refine ⟨le_rfl, ?_, ?_⟩
  · rw [hzero, Nat.zero_mul]
    exact zero_lt_WORD
  · rw [rewardsSince_accrued]
    exact zero_lt_WORD

theorem updated_of_unstaking (h : (s.stakers a).unstakeStartTime ≠ 0) :
    s.updated t a = s.accrued t := by
  rw [updated, Staker.settled_of_unstaking h, setStaker]
  exact congrArg (fun stakers => { s.accrued t with stakers := stakers })
    (Function.update_eq_self a s.stakers)

theorem accrued_eq {n m : ℕ} (hn : s.indexAt t = n)
    (hm : s.rewardsPendingAccumulated + s.totalRewardsAccrued * s.shareSince t = m) :
    { s with
      rewardPerTokenAccrued := n
      rewardsPendingAccumulated := m
      lastUpdateTime := s.lastApplicableTime t } = s.accrued t := by
  rw [accrued, hn, hm]

theorem earnedFits_accrued {index : ℕ} :
    (s.accrued t).EarnedFits index a ↔ s.EarnedFits index a :=
  ⟨fun h => ⟨h.debt, h.product, h.earned⟩, fun h => ⟨h.debt, h.product, h.earned⟩⟩

/-- The second half of an update. -/
theorem calculateEarnedRewards_accrued {n : ℕ} :
    (s.accrued t).calculateEarnedRewards t a = .ok n ↔
      ((s.stakers a).unstakeStartTime = 0 → (s.totalRewardsAccrued ≠ 0 → s.indexAt t < WORD) ∧
        s.EarnedFits (s.indexAt t) a) ∧ (s.stakers a).member.due SCALE (s.indexAt t) = n := by
  have hstakers : (s.accrued t).stakers = s.stakers := rfl
  have htotal : (s.accrued t).totalRewardsAccrued = s.totalRewardsAccrued := rfl
  rw [calculateEarnedRewards_eq_ok_iff, indexAt_accrued, earnedFits_accrued, hstakers, htotal]
  simp only [rewardsFit_accrued, true_and]

/-- The first half of an update. -/
theorem updateReward_eq : s.updateReward t a = (do
    let n ← s.rewardPerToken t
    let m ← s.calculatePendingRewards t
    let self := { s with
      rewardPerTokenAccrued := n
      rewardsPendingAccumulated := m
      lastUpdateTime := s.lastApplicableTime t }
    if (s.stakers a).unstakeStartTime = 0 then
      let earnedRewards ← self.calculateEarnedRewards t a
      return self.setStaker a
        { s.stakers a with earnedRewards := earnedRewards, debtInRewards := n }
    else return self) := by
  unfold updateReward
  congr 1

theorem updateReward_eq_ok_iff :
    s.updateReward t a = .ok s' ↔ s.UpdateFits t a ∧ s.updated t a = s' := by
  rw [updateReward_eq]
  simp only [Except.bind_eq_ok_iff, rewardPerToken_eq_ok_iff, calculatePendingRewards_eq_ok_iff]
  constructor
  · rintro ⟨n, ⟨hindex, hn⟩, m, ⟨hpending, hm⟩, h⟩
    have hrewards := fun hT => (hindex hT).1
    have hword := fun hT => (hindex hT).2
    have hsum := fun hT => (hpending hT).2
    rw [accrued_eq hn hm] at h
    split at h
    · next hactive =>
      obtain ⟨earned, hearned, h⟩ := Except.bind_eq_ok_iff.1 h
      obtain ⟨hfit, hdue⟩ := calculateEarnedRewards_accrued.1 hearned
      refine ⟨⟨hrewards, hword, hsum, fun _ => (hfit hactive).2⟩, ?_⟩
      rw [updated, Staker.settled_of_active hactive, hdue, hn]
      exact Except.ok.inj h
    · next hunstaking =>
      refine ⟨⟨hrewards, hword, hsum, fun hactive => absurd hactive hunstaking⟩, ?_⟩
      rw [updated_of_unstaking hunstaking]
      exact Except.ok.inj h
  · rintro ⟨hfit, hs'⟩
    obtain ⟨n, hn⟩ : ∃ n, s.indexAt t = n := ⟨_, rfl⟩
    obtain ⟨m, hm⟩ : ∃ m, s.rewardsPendingAccumulated +
      s.totalRewardsAccrued * s.shareSince t = m := ⟨_, rfl⟩
    refine ⟨n, ⟨fun hT => ⟨hfit.rewards hT, hfit.index hT⟩, hn⟩, m,
      ⟨fun hT => ⟨hfit.rewards hT, hfit.pending hT⟩, hm⟩, ?_⟩
    rw [accrued_eq hn hm, ← hs']
    split
    · next hactive =>
      refine Except.bind_eq_ok_iff.2 ⟨_, calculateEarnedRewards_accrued.2 ⟨fun _ =>
        ⟨hfit.index, hfit.earned hactive⟩, rfl⟩, ?_⟩
      rw [updated, Staker.settled_of_active hactive, hn]
      rfl
    · next hunstaking =>
      rw [updated_of_unstaking hunstaking]
      rfl

end RollupStaking

/-! ## What a call does -/

namespace RollupStaking

variable {s : RollupStaking} {t : ℕ} {a b : Address}

section Updated


@[simp] theorem updated_totalStakedAmount :
    (s.updated t a).totalStakedAmount = s.totalStakedAmount := rfl

@[simp] theorem updated_totalRewardsAccrued :
    (s.updated t a).totalRewardsAccrued = s.totalRewardsAccrued := rfl

@[simp] theorem updated_rewardRatePerBlock :
    (s.updated t a).rewardRatePerBlock = s.rewardRatePerBlock := rfl

@[simp] theorem updated_lastUpdateTime :
    (s.updated t a).lastUpdateTime = s.lastApplicableTime t := rfl

@[simp] theorem updated_rewardPerTokenAccrued :
    (s.updated t a).rewardPerTokenAccrued = s.indexAt t := rfl

@[simp] theorem updated_unstakeCooldown :
    (s.updated t a).unstakeCooldown = s.unstakeCooldown := rfl

@[simp] theorem updated_unstakeFeePercentage :
    (s.updated t a).unstakeFeePercentage = s.unstakeFeePercentage := rfl

@[simp] theorem updated_launchTime : (s.updated t a).launchTime = s.launchTime := rfl

@[simp] theorem updated_closureTime : (s.updated t a).closureTime = s.closureTime := rfl

@[simp] theorem updated_unstakeFeeAccumulated :
    (s.updated t a).unstakeFeeAccumulated = s.unstakeFeeAccumulated := rfl

@[simp] theorem updated_rewardsPendingAccumulated :
    (s.updated t a).rewardsPendingAccumulated =
      s.rewardsPendingAccumulated + s.totalRewardsAccrued * s.shareSince t := rfl

@[simp] theorem updated_stakers_self :
    (s.updated t a).stakers a = (s.stakers a).settled (s.indexAt t) :=
  Function.update_self _ _ _

theorem updated_stakers_of_ne (h : b ≠ a) : (s.updated t a).stakers b = s.stakers b :=
  Function.update_of_ne h _ _

end Updated

/-- The storage with another entry of `stakers`, and other totals. -/
def changed (self : RollupStaking) (account : Address) (staker : Staker)
    (staked active fees pending : ℕ) : RollupStaking :=
  { self.setStaker account staker with
    totalStakedAmount := staked
    totalRewardsAccrued := active
    unstakeFeeAccumulated := fees
    rewardsPendingAccumulated := pending }

theorem changed_self (staker : Staker) : s.changed a staker s.totalStakedAmount
    s.totalRewardsAccrued s.unstakeFeeAccumulated s.rewardsPendingAccumulated =
      s.setStaker a staker := rfl

/-- The storage with a larger stake. -/
def withStake (self : RollupStaking) (account : Address) (amount : ℕ) : RollupStaking :=
  let staker := self.stakers account
  self.changed account { staker with stakedAmount := staker.stakedAmount + amount }
    (self.totalStakedAmount + amount) (self.totalRewardsAccrued + amount)
    self.unstakeFeeAccumulated self.rewardsPendingAccumulated

/-- The storage with an account that starts to unstake. -/
def withUnstaking (self : RollupStaking) (account : Address) (startTime : ℕ) : RollupStaking :=
  let staker := self.stakers account
  self.changed account { staker with unstakeStartTime := startTime }
    self.totalStakedAmount (self.totalRewardsAccrued - staker.stakedAmount)
    self.unstakeFeeAccumulated self.rewardsPendingAccumulated

/-- What is pending once a reward is paid. -/
def pendingWithout (self : RollupStaking) (reward : ℕ) : ℕ :=
  if reward * SCALE ≤ self.rewardsPendingAccumulated
  then self.rewardsPendingAccumulated - reward * SCALE else self.rewardsPendingAccumulated

/-- The storage once the reward of an account is paid. -/
def withoutReward (self : RollupStaking) (account : Address) : RollupStaking :=
  let staker := self.stakers account
  self.changed account { staker with earnedRewards := 0 }
    self.totalStakedAmount self.totalRewardsAccrued self.unstakeFeeAccumulated
    (self.pendingWithout staker.earnedRewards)

/-- The fee on the stake of an account. -/
def unstakeFee (self : RollupStaking) (account : Address) : ℕ :=
  (self.stakers account).stakedAmount * self.unstakeFeePercentage / FEE_PRECISION

/-- The storage without the stake of an account, and without its reward if that is `covered`. -/
def withoutStake (self : RollupStaking) (account : Address) (covered : Bool) : RollupStaking :=
  let staker := self.stakers account
  self.changed account ⟨0, 0, if covered then 0 else staker.earnedRewards, 0⟩
    (self.totalStakedAmount - staker.stakedAmount) self.totalRewardsAccrued
    (self.unstakeFeeAccumulated + self.unstakeFee account)
    (if covered then self.pendingWithout staker.earnedRewards else self.rewardsPendingAccumulated)

/-- The reset of a reward after the stake is gone. -/
theorem resetReward_eq_ok_iff {available fees staked : ℕ} {s' : RollupStaking} :
    ({ s with unstakeFeeAccumulated := fees, totalStakedAmount := staked }.setStaker a
        { s.stakers a with
          stakedAmount := 0, debtInRewards := 0, unstakeStartTime := 0 }).resetReward a
      (s.stakers a).earnedRewards available = .ok s' ↔
    ((s.stakers a).earnedRewards ≤ available → (s.stakers a).earnedRewards * SCALE < WORD) ∧
      s.changed a ⟨0, 0, if (s.stakers a).earnedRewards ≤ available then 0
          else (s.stakers a).earnedRewards, 0⟩ staked s.totalRewardsAccrued fees
        (if (s.stakers a).earnedRewards ≤ available
          then s.pendingWithout (s.stakers a).earnedRewards else s.rewardsPendingAccumulated) =
        s' := by
  unfold resetReward pendingWithout
  rcases Nat.eq_zero_or_pos (s.stakers a).earnedRewards with hzero | hpos
  · simp [hzero, zero_lt_WORD, setStaker, changed, pure, Except.pure]
  · by_cases hle : (s.stakers a).earnedRewards ≤ available
    · simp only [hpos, hle, and_self, if_true, Except.bind_eq_ok_iff, mul_eq_ok_iff, forall_const]
      by_cases hscaled : (s.stakers a).earnedRewards * SCALE ≤ s.rewardsPendingAccumulated
      all_goals
        constructor
        · rintro ⟨_, ⟨hword, rfl⟩, h⟩
          rw [← Except.ok.inj h]
          simp [setStaker, changed, hscaled, hword]
        · rintro ⟨hword, rfl⟩
          refine ⟨_, ⟨hword, rfl⟩, congrArg Except.ok ?_⟩
          simp [setStaker, changed, hscaled]
    · simp [hle, setStaker, changed, pure, Except.pure]

/-- What of the token's balance is for ether : the stakes and the fees. -/
def reserved (self : RollupStaking) : ℕ :=
  self.totalStakedAmount + self.unstakeFeeAccumulated

@[simp] theorem updated_reserved : (s.updated t a).reserved = s.reserved := by
  simp [reserved]

end RollupStaking

namespace Staking

section Calls

variable {σ : Type} {token : IERC20 σ} {this : Address} {w w' : State σ} {msg : Call}
  {f : Function} {events : List Event}

namespace State

theorem getBalance_eq_ok_iff {n : ℕ} : w.getBalance token this = .ok n ↔
    w.contract.reserved ≤ token.balanceOf w.token this ∧
      token.balanceOf w.token this - w.contract.reserved = n := by
  unfold getBalance RollupStaking.reserved
  simp only [Except.bind_eq_ok_iff, sub_eq_ok_iff]
  constructor
  · rintro ⟨_, ⟨hstaked, rfl⟩, hfees, rfl⟩
    omega
  · rintro ⟨hle, rfl⟩
    exact ⟨_, ⟨by omega, rfl⟩, by omega, by omega⟩

theorem transferToken_eq_ok_iff {«to» : Address} {amount : ℕ} {text : String} {next : σ} :
    w.transferToken token this «to» amount text = .ok next ↔
      token.transfer w.token this «to» amount = some next := by
  unfold transferToken
  cases token.transfer w.token this «to» amount <;> simp

theorem payReward_eq_ok_iff {reward : ℕ} {r : σ × List Event} :
    w.payReward token this msg reward = .ok r ↔
      (if reward = 0 then w.token = r.1
        else token.transfer w.token this msg.sender reward = some r.1) ∧
      (if 0 < reward then [.rewardPaid msg.sender reward] else []) = r.2 := by
  obtain ⟨next, paid⟩ := r
  unfold payReward
  rcases Nat.eq_zero_or_pos reward with rfl | hpos
  · simp [pure, Except.pure]
  · simp only [hpos, if_true, Nat.pos_iff_ne_zero.1 hpos, if_false, Except.bind_eq_ok_iff,
      transferToken_eq_ok_iff]
    constructor
    · rintro ⟨_, htransfer, h⟩
      cases h
      exact ⟨htransfer, rfl⟩
    · rintro ⟨htransfer, rfl⟩
      exact ⟨next, htransfer, rfl⟩

theorem transferEther_eq_ok_iff {amount n : ℕ} : w.transferEther msg amount = .ok n ↔
    (msg.takesEther = true ∧ amount ≤ w.balance) ∧ w.balance - amount = n := by
  unfold transferEther
  simp only [Except.bind_eq_ok_iff, require_eq_ok_iff, pure, Except.pure, Except.ok.injEq]
  constructor
  · rintro ⟨-, h⟩
    exact h
  · exact fun h => ⟨(), h⟩

/-- The balance of the token has the reward of an account besides what is for ether. -/
def covers (token : IERC20 σ) (this : Address) (w : State σ) (a : Address) : Bool :=
  w.contract.reserved + (w.contract.stakers a).earnedRewards ≤ token.balanceOf w.token this

/-- A withdrawal goes through, with the token in the state `next`. -/
structure Withdraws (token : IERC20 σ) (this : Address) (w : State σ) (msg : Call)
    (next : σ) : Prop where
  staked : 0 < (w.contract.stakers msg.sender).stakedAmount
  unstaking : 0 < (w.contract.stakers msg.sender).unstakeStartTime
  cooldown_word : (w.contract.stakers msg.sender).unstakeStartTime +
    w.contract.unstakeCooldown < WORD
  cooldown : (w.contract.stakers msg.sender).unstakeStartTime + w.contract.unstakeCooldown ≤
    msg.timestamp
  fee_word : (w.contract.stakers msg.sender).stakedAmount *
    w.contract.unstakeFeePercentage < WORD
  fee : w.contract.unstakeFee msg.sender ≤ (w.contract.stakers msg.sender).stakedAmount
  free : w.contract.reserved ≤ token.balanceOf w.token this
  fees_word : w.contract.unstakeFeeAccumulated + w.contract.unstakeFee msg.sender < WORD
  total : (w.contract.stakers msg.sender).stakedAmount ≤ w.contract.totalStakedAmount
  scaled : w.covers token this msg.sender = true →
    (w.contract.stakers msg.sender).earnedRewards * SCALE < WORD
  transfer : if (w.contract.stakers msg.sender).earnedRewards = 0 then w.token = next
    else token.transfer w.token this msg.sender
      (w.contract.stakers msg.sender).earnedRewards = some next
  takes : msg.takesEther = true
  ether : (w.contract.stakers msg.sender).stakedAmount - w.contract.unstakeFee msg.sender ≤
    w.balance

/-- The state after a withdrawal. -/
def withdrawn (token : IERC20 σ) (this : Address) (w : State σ) (msg : Call) (next : σ) :
    State σ where
  contract := w.contract.withoutStake msg.sender (w.covers token this msg.sender)
  balance := w.balance -
    ((w.contract.stakers msg.sender).stakedAmount - w.contract.unstakeFee msg.sender)
  token := next

/-- The events of a withdrawal. -/
def withdrawalEvents (w : State σ) (msg : Call) : List Event :=
  (if 0 < (w.contract.stakers msg.sender).earnedRewards
    then [.rewardPaid msg.sender (w.contract.stakers msg.sender).earnedRewards] else []) ++
  [.unstaked msg.sender
    ((w.contract.stakers msg.sender).stakedAmount - w.contract.unstakeFee msg.sender)]

end State

theorem State.withdrawStake_eq_ok_iff : w.withdrawStake token this msg = .ok (w', events) ↔
    ∃ next, w.Withdraws token this msg next ∧ w.withdrawn token this msg next = w' ∧
      w.withdrawalEvents msg = events := by
  unfold withdrawStake
  simp only [Except.bind_eq_ok_iff, require_eq_ok_iff, add_eq_ok_iff, mul_eq_ok_iff,
    sub_eq_ok_iff, getBalance_eq_ok_iff, RollupStaking.resetReward_eq_ok_iff, payReward_eq_ok_iff,
    transferEther_eq_ok_iff]
  -- what is available covers the reward
  have hcovers : w.contract.reserved ≤ token.balanceOf w.token this →
      ((w.contract.stakers msg.sender).earnedRewards ≤
        token.balanceOf w.token this - w.contract.reserved ↔
          w.covers token this msg.sender = true) := by
    intro hfree
    rw [covers, decide_eq_true_iff]
    omega
  constructor
  · rintro ⟨-, hstaked, -, hunstaking, _, ⟨hword, rfl⟩, -, hcooldown, _, ⟨hfeeWord, rfl⟩, _,
      ⟨hfee, rfl⟩, _, ⟨hfree, rfl⟩, _, ⟨hfees, rfl⟩, _, ⟨htotal, rfl⟩, _, ⟨hscaled, rfl⟩,
      ⟨next, _⟩, ⟨htransfer, rfl⟩, _, ⟨⟨htakes, hether⟩, rfl⟩, h⟩
    cases h
    refine ⟨next, ⟨hstaked, hunstaking, hword, hcooldown, hfeeWord, hfee, hfree, hfees, htotal,
      fun hc => hscaled ((hcovers hfree).2 hc), htransfer, htakes, hether⟩, ?_, rfl⟩
    simp only [hcovers hfree]
    rfl
  · rintro ⟨next, h, rfl, rfl⟩
    refine ⟨(), h.staked, (), h.unstaking, _, ⟨h.cooldown_word, rfl⟩, (), h.cooldown, _,
      ⟨h.fee_word, rfl⟩, _, ⟨h.fee, rfl⟩, _, ⟨h.free, rfl⟩, _, ⟨h.fees_word, rfl⟩, _,
      ⟨h.total, rfl⟩, _, ⟨fun hc => h.scaled ((hcovers h.free).1 hc), rfl⟩, ⟨next, _⟩,
      ⟨h.transfer, rfl⟩, _, ⟨⟨h.takes, h.ether⟩, rfl⟩, ?_⟩
    simp only [hcovers h.free]
    rfl

theorem State.claimReward_eq_ok_iff : w.claimReward token this msg = .ok (w', events) ↔
    ∃ next, (w.contract.stakers msg.sender).earnedRewards ≠ 0 ∧
      w.covers token this msg.sender = true ∧
      (w.contract.stakers msg.sender).earnedRewards * SCALE < WORD ∧
      (w.contract.stakers msg.sender).earnedRewards * SCALE ≤
        w.contract.rewardsPendingAccumulated ∧
      token.transfer w.token this msg.sender
        (w.contract.stakers msg.sender).earnedRewards = some next ∧
      { w with contract := w.contract.withoutReward msg.sender, token := next } = w' ∧
      [.rewardPaid msg.sender (w.contract.stakers msg.sender).earnedRewards] = events := by
  unfold claimReward
  simp only [Except.bind_eq_ok_iff, require_eq_ok_iff, mul_eq_ok_iff, sub_eq_ok_iff,
    getBalance_eq_ok_iff, transferToken_eq_ok_iff, covers, decide_eq_true_iff]
  constructor
  · rintro ⟨-, hreward, _, ⟨hfree, rfl⟩, -, hle, _, ⟨hword, rfl⟩, _, ⟨hpending, rfl⟩, next,
      htransfer, h⟩
    cases h
    refine ⟨next, hreward, by omega, hword, hpending, htransfer, ?_, rfl⟩
    simp only [RollupStaking.withoutReward, RollupStaking.pendingWithout, hpending, if_true]
    rfl
  · rintro ⟨next, hreward, hcovers, hword, hpending, htransfer, rfl, rfl⟩
    refine ⟨(), hreward, _, ⟨by omega, rfl⟩, (), by omega, _, ⟨hword, rfl⟩, _, ⟨hpending, rfl⟩,
      next, htransfer, ?_⟩
    simp only [RollupStaking.withoutReward, RollupStaking.pendingWithout, hpending, if_true]
    rfl

/-- Everything the body of a function can do, unless it reverts. -/
inductive Moves (token : IERC20 σ) (this : Address) (w : State σ) (msg : Call) :
    Function → State σ → List Event → Prop where
  | stake {value : ℕ} (hword : w.balance + value < WORD) (hvalue : value ≠ 0)
      (hlaunch : w.contract.launchTime ≤ msg.timestamp)
      (hclosure : msg.timestamp ≤ w.contract.closureTime)
      (hactive : (w.contract.stakers msg.sender).unstakeStartTime = 0) :
      Moves token this w msg (.stake value)
        { w with
          contract := w.contract.withStake msg.sender value
          balance := w.balance + value }
        [.staked msg.sender value]
  | claimReward {next : σ} (hreward : (w.contract.stakers msg.sender).earnedRewards ≠ 0)
      (hcovers : w.covers token this msg.sender = true)
      (hpending : (w.contract.stakers msg.sender).earnedRewards * SCALE ≤
        w.contract.rewardsPendingAccumulated)
      (htransfer : token.transfer w.token this msg.sender
        (w.contract.stakers msg.sender).earnedRewards = some next) :
      Moves token this w msg .claimReward
        { w with contract := w.contract.withoutReward msg.sender, token := next }
        [.rewardPaid msg.sender (w.contract.stakers msg.sender).earnedRewards]
  | withdrawRemainingTokens {next : σ} {pending : ℕ} (howner : msg.isOwner = true)
      (hclosed : w.contract.closureTime < msg.timestamp)
      (hpending : w.contract.calculatePendingRewards msg.timestamp = .ok pending)
      (hfree : w.contract.reserved + pending / SCALE < token.balanceOf w.token this)
      (htransfer : token.transfer w.token this msg.sender (token.balanceOf w.token this -
        w.contract.reserved - pending / SCALE) = some next) :
      Moves token this w msg .withdrawRemainingTokens { w with token := next } []
  | commenceUnstaking (hstaked : 0 < (w.contract.stakers msg.sender).stakedAmount)
      (hactive : (w.contract.stakers msg.sender).unstakeStartTime = 0)
      (htotal : (w.contract.stakers msg.sender).stakedAmount ≤ w.contract.totalRewardsAccrued) :
      Moves token this w msg .commenceUnstaking
        { w with contract := w.contract.withUnstaking msg.sender msg.timestamp }
        [.unstakeStarted msg.sender]
  | setUnstakeFeePercent {fee : ℕ} (hfee : fee ≤ FEE_CAP) :
      Moves token this w msg (.setUnstakeFeePercent fee)
        { w with contract := { w.contract with unstakeFeePercentage := fee } }
        [.unstakeFeePercentageUpdated fee]
  | setUnstakeTime {coolDownTime : ℕ} (htime : coolDownTime ≤ COOLDOWN_DURATION) :
      Moves token this w msg (.setUnstakeTime coolDownTime)
        { w with contract := { w.contract with unstakeCooldown := coolDownTime } }
        [.unstakeCooldownUpdated coolDownTime]
  | withdrawStake {next : σ} (h : w.Withdraws token this msg next) :
      Moves token this w msg .withdrawStake (w.withdrawn token this msg next)
        (w.withdrawalEvents msg)

theorem State.stake_moves {value : ℕ} (h : w.stake msg value = .ok (w', events)) :
    Moves token this w msg (.stake value) w' events := by
  unfold stake at h
  simp only [Except.bind_eq_ok_iff, require_eq_ok_iff, add_eq_ok_iff] at h
  obtain ⟨_, ⟨hword, rfl⟩, -, hvalue, -, hlaunch, -, hclosure, -, hactive, _, ⟨-, rfl⟩, _,
    ⟨-, rfl⟩, _, ⟨-, rfl⟩, h⟩ := h
  cases h
  exact .stake hword hvalue hlaunch hclosure hactive

theorem State.withdrawRemainingTokens_moves
    (h : w.withdrawRemainingTokens token this msg = .ok (w', events)) :
    Moves token this w msg .withdrawRemainingTokens w' events := by
  unfold withdrawRemainingTokens Call.onlyOwner at h
  simp only [Except.bind_eq_ok_iff, require_eq_ok_iff, sub_eq_ok_iff, getBalance_eq_ok_iff,
    transferToken_eq_ok_iff, not_or, not_le] at h
  obtain ⟨-, howner, _, ⟨hfree, rfl⟩, pending, hpending, -, ⟨hclosed, hlt⟩, _, ⟨hle, rfl⟩, next,
    htransfer, h⟩ := h
  cases h
  exact .withdrawRemainingTokens howner hclosed hpending (by omega) htransfer

theorem State.commenceUnstaking_moves (h : w.commenceUnstaking msg = .ok (w', events)) :
    Moves token this w msg .commenceUnstaking w' events := by
  unfold commenceUnstaking at h
  simp only [Except.bind_eq_ok_iff, require_eq_ok_iff, sub_eq_ok_iff] at h
  obtain ⟨-, hstaked, -, hactive, _, ⟨htotal, rfl⟩, h⟩ := h
  cases h
  exact .commenceUnstaking hstaked hactive htotal

theorem State.body_moves (h : w.body token this msg f = .ok (w', events)) :
    Moves token this w msg f w' events := by
  cases f with
  | stake value => exact stake_moves h
  | claimReward =>
    obtain ⟨next, hreward, hcovers, -, hpending, htransfer, rfl, rfl⟩ :=
      claimReward_eq_ok_iff.1 h
    exact .claimReward hreward hcovers hpending htransfer
  | withdrawRemainingTokens => exact withdrawRemainingTokens_moves h
  | commenceUnstaking => exact commenceUnstaking_moves h
  | setUnstakeFeePercent fee =>
    obtain ⟨-, -, h⟩ := Except.bind_eq_ok_iff.1 h
    obtain ⟨_, hfee, h⟩ := Except.bind_eq_ok_iff.1 h
    cases h
    exact .setUnstakeFeePercent (require_eq_ok_iff.1 hfee)
  | setUnstakeTime coolDownTime =>
    obtain ⟨-, -, h⟩ := Except.bind_eq_ok_iff.1 h
    obtain ⟨_, htime, h⟩ := Except.bind_eq_ok_iff.1 h
    cases h
    exact .setUnstakeTime (require_eq_ok_iff.1 htime)
  | withdrawStake =>
    obtain ⟨next, hw, rfl, rfl⟩ := withdrawStake_eq_ok_iff.1 h
    exact .withdrawStake hw

/-- The state a body starts from. -/
def State.prepared (w : State σ) (msg : Call) (f : Function) : State σ :=
  match f.updates msg with
  | some account => { w with contract := w.contract.updated msg.timestamp account }
  | none => w

/-- The modifier of a call does not overflow. -/
def State.Fits (w : State σ) (msg : Call) (f : Function) : Prop :=
  ∀ account, f.updates msg = some account → w.contract.UpdateFits msg.timestamp account

theorem State.execute_eq_ok_iff {r : State σ × List Event} :
    w.execute token this msg f = .ok r ↔
      w.Fits msg f ∧ (w.prepared msg f).body token this msg f = .ok r := by
  unfold execute Fits prepared
  cases f.updates msg with
  | none => simp
  | some account =>
    simp only [updateReward, Except.bind_eq_ok_iff, RollupStaking.updateReward_eq_ok_iff, pure,
      Except.pure, Except.ok.injEq, Option.some.injEq, forall_eq']
    constructor
    · rintro ⟨_, ⟨_, ⟨hfits, rfl⟩, rfl⟩, h⟩
      exact ⟨hfits, h⟩
    · rintro ⟨hfits, h⟩
      exact ⟨_, ⟨_, ⟨hfits, rfl⟩, rfl⟩, h⟩

theorem State.execute_moves (h : w.execute token this msg f = .ok (w', events)) :
    w.Fits msg f ∧ Moves token this (w.prepared msg f) msg f w' events :=
  (execute_eq_ok_iff.1 h).imp_right body_moves

end Calls

end Staking

end Lasr
