import Lasr.StakingSteps
import Mathlib.Data.FinEnum

/-!
# The accounts of the staking contract

What holds in every state of every run of the contract (`Sound`) : the totals are the sums
over the stakers, the ether is there, and the rewards that were set aside cover what the
stakers have earned. The last is that the contract's pool is backed.

A run is any sequence of calls by anyone, at times that do not go back, with the token free to
change between them. A call that reverts leaves the state.
-/

set_option linter.unusedSectionVars false

namespace Lasr

open Staking

/-! ## The chain -/

namespace Staking

/-- The state, and the time of the last block. -/
structure Chain (σ : Type) where
  state : State σ
  time : ℕ

/-- What happens next. -/
inductive Action (σ : Type) where
  | call (msg : Call) (f : Function)
  /-- The token changes by transactions of its own. -/
  | token (next : σ)

section Runs

variable {σ : Type} (token : IERC20 σ) (this : Address)

/-- The state after a call. -/
def State.after (self : State σ) (msg : Call) (f : Function) : State σ :=
  match self.execute token this msg f with
  | .ok r => r.1
  | .error _ => self

/-- One action, if it can happen : a timestamp is a positive word, and no earlier than the last. -/
def Chain.step (self : Chain σ) : Action σ → Option (Chain σ)
  | .call msg f =>
    if 0 < msg.timestamp ∧ msg.timestamp < WORD ∧ self.time ≤ msg.timestamp then
      some ⟨self.state.after token this msg f, msg.timestamp⟩
    else none
  | .token next => some { self with state := { self.state with token := next } }

/-- Action after action. -/
def Chain.run : Chain σ → List (Action σ) → Option (Chain σ)
  | self, [] => some self
  | self, action :: actions => (self.step token this action).bind fun c => c.run actions

/-- The deployment, at a time and over a token. -/
def Chain.deploy (rewardRatePerBlock launchTime duration : ℕ) (token : σ) (time : ℕ) :
    Sol (Chain σ) := do
  return ⟨⟨← RollupStaking.new rewardRatePerBlock launchTime duration, 0, token⟩, time⟩

/-- A state that some run comes to. -/
def Chain.Reachable (c : Chain σ) : Prop :=
  ∃ rate launch duration start time c₀ actions,
    Chain.deploy rate launch duration start time = .ok c₀ ∧
      c₀.run token this actions = some c

end Runs

section Runs

variable {σ : Type} {token : IERC20 σ} {this : Address} {c c' : Chain σ}
  {actions : List (Action σ)}

/-- What each action keeps, a run keeps. -/
theorem Chain.run_keeps {P : Chain σ → Prop}
    (hstep : ∀ c action c', action ∈ actions → P c → c.step token this action = some c' → P c')
    (hc : P c) (h : c.run token this actions = some c') : P c' := by
  induction actions generalizing c with
  | nil =>
    cases h
    exact hc
  | cons action actions ih =>
    obtain ⟨c₁, hc₁, h⟩ := Option.bind_eq_some_iff.1 h
    exact ih (fun c action' c' hmem => hstep c action' c' (List.mem_cons_of_mem _ hmem))
      (hstep c action c₁ List.mem_cons_self hc hc₁) h

/-- Everything an action can do. -/
theorem Chain.step_cases {action : Action σ} (h : c.step token this action = some c') :
    (∃ next, action = .token next ∧ c' = { c with state := { c.state with token := next } }) ∨
    ∃ msg f, action = .call msg f ∧ 0 < msg.timestamp ∧ msg.timestamp < WORD ∧
      c.time ≤ msg.timestamp ∧ c' = ⟨c.state.after token this msg f, msg.timestamp⟩ := by
  cases action with
  | token next =>
    cases h
    exact .inl ⟨next, rfl, rfl⟩
  | call msg f =>
    simp only [step] at h
    split_ifs at h with ht
    cases h
    exact .inr ⟨msg, f, rfl, ht.1, ht.2.1, ht.2.2, rfl⟩

/-- A call changes nothing, or moves the contract. -/
theorem State.after_cases (token : IERC20 σ) (this : Address) (w : State σ) (msg : Call)
    (f : Function) :
    (∃ e, w.execute token this msg f = .error e ∧ w.after token this msg f = w) ∨
    ∃ events, w.execute token this msg f = .ok (w.after token this msg f, events) := by
  unfold after
  cases w.execute token this msg f with
  | error e => exact .inl ⟨e, rfl, rfl⟩
  | ok r => exact .inr ⟨r.2, rfl⟩

end Runs

end Staking

/-! ## The invariant -/

/-- The accounts are in order, with `balance` in ether at a time. -/
structure RollupStaking.Sound (s : RollupStaking) (balance time : ℕ) : Prop where
  staked : s.totalStakedAmount = ∑ a, (s.stakers a).stakedAmount
  active : s.totalRewardsAccrued = s.pool.total
  unstaking : ∀ a, (s.stakers a).unstakeStartTime ≠ 0 → 0 < (s.stakers a).stakedAmount
  ether : balance = s.reserved
  balance_word : balance < WORD
  fee : s.unstakeFeePercentage ≤ FEE_CAP
  backed : s.pool.Backed SCALE
  clock : s.lastUpdateTime ≤ s.lastApplicableTime time
  started : s.totalRewardsAccrued ≠ 0 → s.launchTime ≤ s.lastUpdateTime
  bounded : s.rewardsPendingAccumulated ≤
    s.rewardRatePerBlock * SCALE * (s.lastUpdateTime - s.launchTime)
  pending_word : s.rewardsPendingAccumulated < WORD
  index_word : s.rewardPerTokenAccrued < WORD

namespace RollupStaking

variable {s s' : RollupStaking} {balance balance' time t : ℕ} {a : Address} {st : Staker}

theorem lastApplicableTime_mono (h : time ≤ t) :
    s.lastApplicableTime time ≤ s.lastApplicableTime t := by
  unfold lastApplicableTime
  split_ifs <;> omega

theorem lastApplicableTime_le : s.lastApplicableTime t ≤ s.closureTime := by
  unfold lastApplicableTime
  split_ifs <;> omega

/-- Time passes. -/
theorem Sound.later (h : s.Sound balance time) (ht : time ≤ t) : s.Sound balance t :=
  { h with clock := h.clock.trans (lastApplicableTime_mono ht) }

theorem pool_changed (st : Staker) (staked active fees pending : ℕ) :
    (s.changed a st staked active fees pending).pool = s.pool.set a st.member pending := by
  unfold RewardPool.set
  refine congrArg (fun member => (⟨_, _, member⟩ : RewardPool Address)) (funext fun b => ?_)
  exact Function.apply_update (fun _ => Staker.member) s.stakers a st b

/-- One staker is changed, and the totals with it. -/
theorem Sound.changed {staked active fees pending : ℕ} (h : s.Sound balance time)
    (hstaked : staked + (s.stakers a).stakedAmount = s.totalStakedAmount + st.stakedAmount)
    (hactive : active + (s.stakers a).member.share = s.totalRewardsAccrued + st.member.share)
    (hunstaking : st.unstakeStartTime ≠ 0 → 0 < st.stakedAmount)
    (hdebt : st.debtInRewards ≤ s.rewardPerTokenAccrued)
    (howed : st.member.owed SCALE s.rewardPerTokenAccrued + s.rewardsPendingAccumulated ≤
      (s.stakers a).member.owed SCALE s.rewardPerTokenAccrued + pending)
    (hether : balance' = staked + fees) (hword : balance' < WORD)
    (hpending : pending ≤ s.rewardsPendingAccumulated)
    (hstarted : active ≠ 0 → s.launchTime ≤ s.lastUpdateTime) :
    (s.changed a st staked active fees pending).Sound balance' time := by
  have hpool := pool_changed (s := s) (a := a) st staked active fees pending
  refine ⟨?_, ?_, fun b hb => ?_, hether, hword, h.fee, ?_, h.clock, hstarted,
    hpending.trans h.bounded, hpending.trans_lt h.pending_word, h.index_word⟩
  · have hsum := Fintype.sum_update_add Staker.stakedAmount s.stakers a st
    have hold := h.staked
    change staked = ∑ b, (Function.update s.stakers a st b).stakedAmount
    omega
  · have hsum := RewardPool.total_set (p := s.pool) a st.member pending
    have hold := h.active
    rw [hpool]
    change _ + (s.stakers a).member.share = _ at hsum
    change active = _
    omega
  · change (Function.update s.stakers a st b).unstakeStartTime ≠ 0 at hb
    change 0 < (Function.update s.stakers a st b).stakedAmount
    rcases eq_or_ne b a with rfl | hne
    · rw [Function.update_self] at hb ⊢
      exact hunstaking hb
    · rw [Function.update_of_ne hne] at hb ⊢
      exact h.unstaking b hb
  · rw [hpool]
    exact h.backed.set hdebt howed

end RollupStaking

/-! ## Updates -/

namespace Staking.Staker

variable {index : ℕ} {st : Staker}

theorem member_settled (h : st.unstakeStartTime = 0) :
    (st.settled index).member = st.member.settle SCALE index := by
  rw [settled_of_active h]
  rfl

@[simp] theorem share_settled : (st.settled index).member.share = st.member.share := by
  simp [member]

theorem debt_settled_le (h : st.debtInRewards ≤ index) :
    (st.settled index).debtInRewards ≤ index := by
  by_cases hactive : st.unstakeStartTime = 0
  · rw [settled_of_active hactive]
  · rwa [settled_of_unstaking hactive]

theorem owed_settled_le :
    (st.settled index).member.owed SCALE index ≤ st.member.owed SCALE index := by
  by_cases hactive : st.unstakeStartTime = 0
  · rw [member_settled hactive]
    exact RewardPool.Member.owed_settle_le
  · rw [settled_of_unstaking hactive]

end Staking.Staker

namespace RollupStaking

variable {s s' : RollupStaking} {balance balance' time t : ℕ} {a : Address} {st : Staker}

/-- What the shares get of the rewards is no more than the rewards. -/
theorem mul_shareSince_le : s.totalRewardsAccrued * s.shareSince t ≤ s.rewardsSince t :=
  Nat.mul_div_le _ _

theorem pool_accrued (h : s.totalRewardsAccrued = s.pool.total) :
    (s.accrued t).pool = s.pool.accrue (s.shareSince t) := by
  have hpot : (s.accrued t).rewardsPendingAccumulated =
      s.rewardsPendingAccumulated + s.pool.total * s.shareSince t := by
    rw [← h]
    rfl
  unfold RewardPool.accrue
  exact congrArg (fun n => (⟨s.indexAt t, n, s.pool.member⟩ : RewardPool Address)) hpot

theorem reserved_accrued : (s.accrued t).reserved = s.reserved := by
  unfold reserved
  rfl

theorem lastApplicableTime_accrued (t' : ℕ) :
    (s.accrued t).lastApplicableTime t' = s.lastApplicableTime t' := by
  unfold lastApplicableTime
  rfl

/-- What is set aside up to now is no more than the rewards since the launch. -/
theorem Sound.pending_accrued_le (h : s.Sound balance time) (ht : time ≤ t) :
    s.rewardsPendingAccumulated + s.totalRewardsAccrued * s.shareSince t ≤
      s.rewardRatePerBlock * SCALE * (s.lastApplicableTime t - s.launchTime) := by
  have hclock := (h.later ht).clock
  by_cases hidle : s.totalRewardsAccrued = 0
  · rw [hidle, Nat.zero_mul, Nat.add_zero]
    exact h.bounded.trans (Nat.mul_le_mul_left _ (Nat.sub_le_sub_right hclock _))
  · have hlaunch := h.started hidle
    calc s.rewardsPendingAccumulated + s.totalRewardsAccrued * s.shareSince t
        ≤ s.rewardRatePerBlock * SCALE * (s.lastUpdateTime - s.launchTime) + s.rewardsSince t :=
          Nat.add_le_add h.bounded mul_shareSince_le
      _ = s.rewardRatePerBlock * SCALE * ((s.lastUpdateTime - s.launchTime) +
            (s.lastApplicableTime t - s.lastUpdateTime)) := by
          unfold rewardsSince
          ring
      _ = s.rewardRatePerBlock * SCALE * (s.lastApplicableTime t - s.launchTime) := by
          congr 1
          omega

/-- The rewards are brought up to date. -/
theorem Sound.accrued (h : s.Sound balance time) (ht : time ≤ t) (hfits : s.UpdateFits t a) :
    (s.accrued t).Sound balance t := by
  have hpool := pool_accrued (t := t) h.active
  have hclock := (h.later ht).clock
  refine ⟨h.staked, ?_, h.unstaking, ?_, h.balance_word, h.fee, ?_, ?_, fun hT => ?_,
    h.pending_accrued_le ht, ?_, ?_⟩
  · rw [hpool, RewardPool.total_accrue]
    exact h.active
  · rw [reserved_accrued]
    exact h.ether
  · rw [hpool]
    exact h.backed.accrue _
  · rw [lastApplicableTime_accrued]
    exact le_rfl
  · exact (h.started hT).trans hclock
  · change s.rewardsPendingAccumulated + s.totalRewardsAccrued * s.shareSince t < WORD
    by_cases hidle : s.totalRewardsAccrued = 0
    · rw [hidle, Nat.zero_mul, Nat.add_zero]
      exact h.pending_word
    · have hle := mul_shareSince_le (s := s) (t := t)
      have hlt := hfits.pending hidle
      omega
  · change s.indexAt t < WORD
    by_cases hidle : s.totalRewardsAccrued = 0
    · rw [indexAt, shareSince_of_idle hidle, Nat.add_zero]
      exact h.index_word
    · exact hfits.index hidle

/-- An update keeps the accounts in order. -/
theorem Sound.updated (h : s.Sound balance time) (ht : time ≤ t) (hfits : s.UpdateFits t a) :
    (s.updated t a).Sound balance t := by
  have hacc := h.accrued ht hfits
  rw [RollupStaking.updated, ← changed_self]
  refine hacc.changed ?_ ?_ ?_ ?_ ?_ hacc.ether h.balance_word le_rfl hacc.started
  · rw [Staker.settled_stakedAmount]
    rfl
  · rw [Staker.share_settled]
    rfl
  · rw [Staker.settled_unstakeStartTime, Staker.settled_stakedAmount]
    exact h.unstaking a
  · exact Staker.debt_settled_le (hacc.backed.debt_le a)
  · exact Nat.add_le_add_right Staker.owed_settled_le _

end RollupStaking

/-! ## Calls -/

/-- The rewards are up to date, and the account is settled unless it unstakes. -/
structure RollupStaking.Ready (s : RollupStaking) (t : ℕ) (a : Address) : Prop where
  clock : s.lastUpdateTime = s.lastApplicableTime t
  settled : (s.stakers a).unstakeStartTime = 0 →
    (s.stakers a).debtInRewards = s.rewardPerTokenAccrued

namespace RollupStaking

variable {s : RollupStaking} {balance t v : ℕ} {a : Address} {covered : Bool}

theorem ready_updated : (s.updated t a).Ready t a := by
  refine ⟨?_, fun hactive => ?_⟩
  · unfold lastApplicableTime
    rfl
  · rw [updated_stakers_self, Staker.settled_unstakeStartTime] at hactive
    rw [updated_stakers_self, Staker.settled_of_active hactive, updated_rewardPerTokenAccrued]

theorem Sound.withStake (h : s.Sound balance t) (hready : s.Ready t a)
    (hactive : (s.stakers a).unstakeStartTime = 0) (hword : balance + v < WORD)
    (hlaunch : s.launchTime ≤ t) (hclosure : t ≤ s.closureTime) :
    (s.withStake a v).Sound (balance + v) t := by
  have hether := h.ether
  have hstarted : s.launchTime ≤ s.lastUpdateTime := by
    rw [hready.clock, lastApplicableTime]
    split_ifs <;> omega
  have hdebt := hready.settled hactive
  refine h.changed ?_ ?_ (fun hne => absurd hactive hne) hdebt.le ?_ ?_ hword le_rfl
    fun _ => hstarted
  · dsimp only
    omega
  · simp only [Staker.member, hactive, if_true]
    omega
  · simp [Staker.member, RewardPool.Member.owed, hdebt]
  · unfold reserved at hether
    omega

theorem Sound.withUnstaking (h : s.Sound balance t) (hstaked : 0 < (s.stakers a).stakedAmount)
    (hactive : (s.stakers a).unstakeStartTime = 0) (ht : 0 < t)
    (htotal : (s.stakers a).stakedAmount ≤ s.totalRewardsAccrued) :
    (s.withUnstaking a t).Sound balance t := by
  have hne : t ≠ 0 := by omega
  refine h.changed rfl ?_ (fun _ => hstaked) (h.backed.debt_le a) ?_ h.ether h.balance_word le_rfl
    fun hT => h.started (by omega)
  · simp only [Staker.member, hactive, hne, if_true, if_false]
    omega
  · simp [Staker.member, RewardPool.Member.owed, hactive, hne]

/-- The reward of a staker is set aside. -/
theorem Sound.earned_le (h : s.Sound balance t) (a : Address) :
    (s.stakers a).earnedRewards * SCALE ≤ s.rewardsPendingAccumulated := by
  have howed := h.backed.member_owed_le a
  have hle : SCALE * (s.stakers a).earnedRewards ≤
      (s.stakers a).member.owed SCALE s.rewardPerTokenAccrued := Nat.le_add_right _ _
  rw [Nat.mul_comm]
  exact hle.trans howed

/-- A reward that is paid is taken from what is pending. -/
theorem Sound.pendingWithout_add (h : s.Sound balance t) (a : Address) :
    s.pendingWithout (s.stakers a).earnedRewards + SCALE * (s.stakers a).earnedRewards =
      s.rewardsPendingAccumulated := by
  have hle := h.earned_le a
  rw [pendingWithout, if_pos hle, Nat.mul_comm SCALE]
  omega

theorem Sound.withoutReward (h : s.Sound balance t) : (s.withoutReward a).Sound balance t := by
  have hpending := h.pendingWithout_add a
  refine h.changed rfl ?_ (h.unstaking a) (h.backed.debt_le a) ?_ h.ether h.balance_word ?_
    h.started
  · simp only [Staker.member]
  · simp only [Staker.member, RewardPool.Member.owed, Nat.mul_zero]
    omega
  · omega

theorem Sound.unstakeFee_le (h : s.Sound balance t) (a : Address) :
    s.unstakeFee a ≤ (s.stakers a).stakedAmount := by
  have hcap : s.unstakeFeePercentage ≤ FEE_PRECISION := h.fee.trans (by decide)
  unfold unstakeFee
  refine Nat.div_le_of_le_mul ?_
  rw [Nat.mul_comm]
  exact Nat.mul_le_mul_right _ hcap

theorem Sound.staked_le (h : s.Sound balance t) (a : Address) :
    (s.stakers a).stakedAmount ≤ s.totalStakedAmount := by
  rw [h.staked]
  exact Finset.single_le_sum (f := fun a => (s.stakers a).stakedAmount)
    (fun _ _ => Nat.zero_le _) (Finset.mem_univ a)

theorem Sound.withoutStake (h : s.Sound balance t)
    (hunstaking : (s.stakers a).unstakeStartTime ≠ 0) :
    (s.withoutStake a covered).Sound
      (balance - ((s.stakers a).stakedAmount - s.unstakeFee a)) t := by
  have hpending := h.pendingWithout_add a
  have hether := h.ether
  have hword := h.balance_word
  have hfee := h.unstakeFee_le a
  have htotal := h.staked_le a
  refine h.changed ?_ ?_ (fun hne => absurd rfl hne) (Nat.zero_le _) ?_ ?_ ?_ ?_ h.started
  · dsimp only
    omega
  · simp only [Staker.member, hunstaking, if_true, if_false]
  · simp only [Staker.member, RewardPool.Member.owed, hunstaking, if_true, if_false,
      Nat.zero_mul, Nat.add_zero]
    cases covered
    · simp
    · simp only [if_true, Nat.mul_zero]
      omega
  · unfold reserved at hether
    omega
  · omega
  · split <;> omega

end RollupStaking

namespace Staking

variable {σ : Type} {token : IERC20 σ} {this : Address} {w w' : State σ} {msg : Call}
  {f : Function} {events : List Event}

/-- The accounts are in order at a time. -/
abbrev State.Sound (w : State σ) (time : ℕ) : Prop :=
  w.contract.Sound w.balance time

theorem Moves.sound (h : Moves token this w msg f w' events) (hs : w.Sound msg.timestamp)
    (ht : 0 < msg.timestamp)
    (hready : ∀ a, f.updates msg = some a → w.contract.Ready msg.timestamp a) :
    w'.Sound msg.timestamp := by
  cases h with
  | stake hword hvalue hlaunch hclosure hactive =>
    exact RollupStaking.Sound.withStake hs (hready _ rfl) hactive hword hlaunch hclosure
  | claimReward => exact RollupStaking.Sound.withoutReward hs
  | withdrawRemainingTokens => exact hs
  | commenceUnstaking hstaked hactive htotal =>
    exact RollupStaking.Sound.withUnstaking hs hstaked hactive ht htotal
  | setUnstakeFeePercent hfee => exact { hs with fee := hfee }
  | setUnstakeTime => exact { hs with }
  | withdrawStake h => exact RollupStaking.Sound.withoutStake hs h.unstaking.ne'

end Staking

/-! ## Runs -/

namespace Staking

section Keep

variable {σ : Type} {token : IERC20 σ} {this : Address} {w w' : State σ} {msg : Call}
  {f : Function} {events : List Event} {c c' : Chain σ} {actions : List (Action σ)} {time : ℕ}

theorem State.prepared_sound (hs : w.Sound time) (ht : time ≤ msg.timestamp)
    (hfits : w.Fits msg f) : (w.prepared msg f).Sound msg.timestamp := by
  unfold State.prepared
  split
  · next account haccount => exact RollupStaking.Sound.updated hs ht (hfits account haccount)
  · exact RollupStaking.Sound.later hs ht

theorem State.prepared_ready {a : Address} (h : f.updates msg = some a) :
    (w.prepared msg f).contract.Ready msg.timestamp a := by
  unfold State.prepared
  rw [h]
  exact RollupStaking.ready_updated

theorem State.execute_sound (hs : w.Sound time) (ht : time ≤ msg.timestamp)
    (hpos : 0 < msg.timestamp) (h : w.execute token this msg f = .ok (w', events)) :
    w'.Sound msg.timestamp := by
  obtain ⟨hfits, hmoves⟩ := State.execute_moves h
  exact hmoves.sound (State.prepared_sound hs ht hfits) hpos fun a ha => State.prepared_ready ha

theorem State.after_sound (hs : w.Sound time) (ht : time ≤ msg.timestamp)
    (hpos : 0 < msg.timestamp) : (w.after token this msg f).Sound msg.timestamp := by
  rcases w.after_cases token this msg f with ⟨e, -, heq⟩ | ⟨events, h⟩
  · rw [heq]
    exact RollupStaking.Sound.later hs ht
  · exact State.execute_sound hs ht hpos h

theorem Chain.step_sound {action : Action σ} (hs : c.state.Sound c.time)
    (h : c.step token this action = some c') : c'.state.Sound c'.time := by
  rcases Chain.step_cases h with ⟨next, -, rfl⟩ | ⟨msg, f, -, hpos, -, ht, rfl⟩
  · exact hs
  · exact State.after_sound hs ht hpos

theorem Chain.deploy_sound {rate launch duration : ℕ} {start : σ}
    (h : Chain.deploy rate launch duration start time = .ok c) : c.state.Sound c.time := by
  obtain ⟨s, hs, h⟩ := Except.bind_eq_ok_iff.1 h
  cases h
  obtain ⟨closureTime, -, hs⟩ := Except.bind_eq_ok_iff.1 hs
  cases hs
  refine ⟨?_, ?_, fun a ha => absurd rfl ha, rfl, zero_lt_WORD, Nat.zero_le _,
    ⟨fun a => le_rfl, ?_⟩, Nat.zero_le _, fun hT => absurd rfl hT, Nat.zero_le _, zero_lt_WORD,
    zero_lt_WORD⟩
  · exact Finset.sum_const_zero.symm
  · exact Finset.sum_const_zero.symm
  · refine le_of_eq (Finset.sum_eq_zero fun a _ => ?_)
    simp [RollupStaking.pool, Staker.member, RewardPool.Member.owed]

/-- The accounts are in order in every state of every run. -/
theorem Chain.Reachable.sound (h : c.Reachable token this) : c.state.Sound c.time := by
  obtain ⟨rate, launch, duration, start, time, c₀, actions, hdeploy, hrun⟩ := h
  exact Chain.run_keeps (P := fun c => c.state.Sound c.time)
    (fun c action c' _ hs hstep => Chain.step_sound hs hstep) (Chain.deploy_sound hdeploy) hrun

end Keep

end Staking

namespace RollupStaking

variable {s : RollupStaking}

theorem pool_total_eq :
    s.pool.total = ∑ a with (s.stakers a).unstakeStartTime = 0, (s.stakers a).stakedAmount :=
  (Finset.sum_filter _ _).symm

theorem pool_owed_eq : s.pool.owed SCALE = SCALE * ∑ a, (s.stakers a).earnedRewards +
    ∑ a with (s.stakers a).unstakeStartTime = 0, (s.stakers a).stakedAmount *
      (s.rewardPerTokenAccrued - (s.stakers a).debtInRewards) := by
  rw [Finset.mul_sum, Finset.sum_filter, ← Finset.sum_add_distrib]
  refine Finset.sum_congr rfl fun a _ => ?_
  simp only [pool, Staker.member, RewardPool.Member.owed, ite_mul, Nat.zero_mul]

end RollupStaking

section Invariant

variable {σ : Type} {token : IERC20 σ} {this : Address} {c : Staking.Chain σ}

/-- The totals are the sums over the stakers, those that unstake have a stake, and the ether is
that of the stakes and the fees. -/
theorem staking_accounts (h : c.Reachable token this) :
    c.state.contract.totalStakedAmount = ∑ a, (c.state.contract.stakers a).stakedAmount ∧
    c.state.contract.totalRewardsAccrued =
      ∑ a with (c.state.contract.stakers a).unstakeStartTime = 0,
        (c.state.contract.stakers a).stakedAmount ∧
    (∀ a, (c.state.contract.stakers a).unstakeStartTime ≠ 0 →
      0 < (c.state.contract.stakers a).stakedAmount) ∧
    c.state.balance =
      c.state.contract.totalStakedAmount + c.state.contract.unstakeFeeAccumulated := by
  have hs := h.sound
  exact ⟨hs.staked, hs.active.trans RollupStaking.pool_total_eq, hs.unstaking, hs.ether⟩

/-- A token that is nothing but its balances. -/
def ledgerToken : IERC20 (Address → ℕ) where
  balanceOf balances account := balances account
  transfer balances sender recipient amount :=
    if amount ≤ balances sender then
      let balances := Function.update balances sender (balances sender - amount)
      some (Function.update balances recipient (balances recipient + amount))
    else none

/-- The contract at 0xff, with one reward a second from 1 to 101, and some tokens. -/
def smallChain (tokens : ℕ) : Staking.Chain (Address → ℕ) where
  state := {
    contract := {
      totalStakedAmount := 0
      totalRewardsAccrued := 0
      rewardRatePerBlock := 1
      lastUpdateTime := 0
      rewardPerTokenAccrued := 0
      unstakeCooldown := 7 * 24 * 60 * 60
      unstakeFeePercentage := 0
      launchTime := 1
      closureTime := 101
      unstakeFeeAccumulated := 0
      rewardsPendingAccumulated := 0
      stakers := fun _ => ⟨0, 0, 0, 0⟩ }
    balance := 0
    token := fun a => if a = 255#160 then tokens else 0 }
  time := 1

/-- A call by an account that takes ether and is not the owner. -/
def callAt (sender : Address) (timestamp : ℕ) (f : Function) : Action (Address → ℕ) :=
  .call ⟨sender, timestamp, true, false⟩ f

theorem reachable_smallChain {tokens : ℕ} {actions : List (Action (Address → ℕ))}
    {c : Staking.Chain (Address → ℕ)}
    (h : (smallChain tokens).run ledgerToken 255#160 actions = some c) :
    c.Reachable ledgerToken 255#160 :=
  ⟨1, 1, 100, fun a => if a = 255#160 then tokens else 0, 1, smallChain tokens, actions,
    rfl, h⟩

theorem staking_accounts_of_two_stakers :
    ∃ c : Staking.Chain (Address → ℕ), c.Reachable ledgerToken 255#160 ∧
      (c.state.contract.stakers 2#160).unstakeStartTime ≠ 0 ∧ c.state.balance = 30 ∧
      ∑ a, (c.state.contract.stakers a).stakedAmount = 30 ∧
      ∑ a with (c.state.contract.stakers a).unstakeStartTime = 0,
        (c.state.contract.stakers a).stakedAmount = 20 := by
  obtain ⟨c, hrun⟩ : ∃ c, (smallChain 1000).run ledgerToken 255#160
      [callAt 2#160 1 (.stake 10), callAt 3#160 2 (.stake 20), callAt 2#160 3 .commenceUnstaking] =
        some c := ⟨_, rfl⟩
  have hc := reachable_smallChain hrun
  have hvalues : c.state.contract.totalStakedAmount = 30 ∧
      c.state.contract.totalRewardsAccrued = 20 ∧ c.state.balance = 30 ∧
      (c.state.contract.stakers 2#160).unstakeStartTime ≠ 0 := by
    cases hrun
    decide +kernel
  obtain ⟨hstaked, hactive, -, -⟩ := staking_accounts hc
  exact ⟨c, hc, hvalues.2.2.2, hvalues.2.2.1, hstaked.symm.trans hvalues.1,
    hactive.symm.trans hvalues.2.1⟩

end Invariant

end Lasr
