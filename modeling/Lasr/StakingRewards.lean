import Lasr.StakingInvariant

/-!
# The rewards of the staking contract

What the accounts being in order gives for the rewards. The reward arithmetic fails only by
overflow : no subtraction in it goes below zero, neither in the views nor in a call
(`staking_rewards_backed`).

What an account can read off as its reward (`earnedAt`) is due to its own stake and to the
index. Others raise the index, by less the more they stake, and touch no entry of `stakers` but
their own, so nothing they do takes from it (`others_keep_rewards`).
-/

set_option linter.unusedSectionVars false

namespace Lasr

open Staking

/-! ## Failures of the reward arithmetic -/

namespace RollupStaking

variable {s : RollupStaking} {balance time t : ℕ} {a : Address} {e : Revert}
  {site : Subtraction}

theorem rewardPerToken_error (hclock : s.lastUpdateTime ≤ s.lastApplicableTime t)
    (h : s.rewardPerToken t = .error e) : e = .overflow := by
  unfold rewardPerToken at h
  split at h
  · cases h
  · simp only [Except.bind_eq_error_iff, sub_eq_error_iff, mul_eq_error_iff, add_eq_error_iff,
      hclock, not_true_eq_false, false_and, false_or] at h
    obtain ⟨_, -, ⟨-, rfl⟩ | ⟨_, -, ⟨-, rfl⟩ | ⟨_, -, -, rfl⟩⟩⟩ := h
    all_goals rfl

/-- The remainder is one of a part of the sum. -/
theorem calculatePendingRewards_error (hclock : s.lastUpdateTime ≤ s.lastApplicableTime t)
    (h : s.calculatePendingRewards t = .error e) : e = .overflow := by
  unfold calculatePendingRewards calculateFullPendingRewards calculateTimeDifference at h
  split at h
  · cases h
  · simp only [Except.bind_eq_error_iff, sub_eq_error_iff, mul_eq_error_iff, add_eq_error_iff,
      add_eq_ok_iff, hclock, not_true_eq_false, false_and, false_or] at h
    obtain ⟨_, -, ⟨-, rfl⟩ | ⟨_, -, -, rfl⟩⟩ | ⟨full, -, ⟨-, rfl⟩ | ⟨_, ⟨-, rfl⟩, hlt, -⟩⟩ := h
    · rfl
    · rfl
    · rfl
    · have hmod := Nat.mod_le full s.totalRewardsAccrued
      omega

theorem calculateEarnedRewards_error (hclock : s.lastUpdateTime ≤ s.lastApplicableTime t)
    (hdebt : (s.stakers a).debtInRewards ≤ s.rewardPerTokenAccrued)
    (h : s.calculateEarnedRewards t a = .error e) : e = .overflow := by
  unfold calculateEarnedRewards at h
  dsimp only at h
  split at h
  · cases h
  · simp only [Except.bind_eq_error_iff, rewardPerToken_eq_ok_iff, sub_eq_error_iff,
      mul_eq_error_iff, add_eq_error_iff] at h
    obtain h | ⟨_, ⟨-, rfl⟩, ⟨hlt, -⟩ | ⟨_, -, ⟨-, rfl⟩ | ⟨_, -, -, rfl⟩⟩⟩ := h
    · exact rewardPerToken_error hclock h
    · exact absurd (hdebt.trans (Nat.le_add_right _ _)) hlt
    · rfl
    · rfl

theorem updateReward_error (hclock : s.lastUpdateTime ≤ s.lastApplicableTime t)
    (hdebt : (s.stakers a).debtInRewards ≤ s.rewardPerTokenAccrued)
    (h : s.updateReward t a = .error e) : e = .overflow := by
  rw [updateReward_eq] at h
  rcases Except.bind_eq_error_iff.1 h with h | ⟨n, hindex, h⟩
  · exact rewardPerToken_error hclock h
  rcases Except.bind_eq_error_iff.1 h with h | ⟨m, hpending, h⟩
  · exact calculatePendingRewards_error hclock h
  rw [accrued_eq (rewardPerToken_eq_ok_iff.1 hindex).2
    (calculatePendingRewards_eq_ok_iff.1 hpending).2] at h
  split at h
  · rcases Except.bind_eq_error_iff.1 h with h | ⟨_, -, h⟩
    · refine calculateEarnedRewards_error ?_ ?_ h
      · rw [lastApplicableTime_accrued]
        exact le_rfl
      · exact hdebt.trans (Nat.le_add_right _ _)
    · cases h
  · cases h

theorem resetReward_ne_underflow {reward available : ℕ} :
    s.resetReward a reward available ≠ .error (.underflow site) := by
  unfold resetReward
  split <;> simp [Except.bind_eq_error_iff, pure, Except.pure]

/-- The stake of an account that does not unstake is in the total. -/
theorem Sound.active_le (h : s.Sound balance time) (hactive : (s.stakers a).unstakeStartTime = 0) :
    (s.stakers a).stakedAmount ≤ s.totalRewardsAccrued := by
  rw [h.active, pool_total_eq]
  exact Finset.single_le_sum (f := fun a => (s.stakers a).stakedAmount)
    (fun _ _ => Nat.zero_le _) (Finset.mem_filter.2 ⟨Finset.mem_univ a, hactive⟩)

end RollupStaking

namespace Staking

/-- The subtractions that have to do with the rewards. -/
def Subtraction.ofRewards : List Subtraction :=
  [.timeDifference, .rewardDebt, .pendingRewards, .totalRewards]

namespace State

variable {σ : Type} {token : IERC20 σ} {this : Address} {w w' : State σ} {msg : Call}
  {f : Function} {site : Subtraction} {time : ℕ}

theorem getBalance_underflow (h : w.getBalance token this = .error (.underflow site)) :
    site = .freeBalance := by
  unfold getBalance at h
  simp only [Except.bind_eq_error_iff, sub_eq_error_iff, Revert.underflow.injEq] at h
  rcases h with ⟨-, h⟩ | ⟨_, -, -, h⟩
  · exact h.symm
  · exact h.symm

theorem onlyOwner_ne_underflow :
    msg.onlyOwner ≠ .error (.underflow site) := by
  simp [Call.onlyOwner]

theorem transferToken_ne_underflow {«to» : Address} {amount : ℕ} {text : String} :
    w.transferToken token this «to» amount text ≠ .error (.underflow site) := by
  unfold transferToken
  split <;> simp

theorem payReward_ne_underflow {reward : ℕ} :
    w.payReward token this msg reward ≠ .error (.underflow site) := by
  unfold payReward
  split <;> simp [Except.bind_eq_error_iff, transferToken_ne_underflow, pure, Except.pure]

theorem transferEther_ne_underflow {amount : ℕ} :
    w.transferEther msg amount ≠ .error (.underflow site) := by
  simp [transferEther, Except.bind_eq_error_iff, pure, Except.pure]

theorem claimReward_underflow (hs : w.Sound time)
    (h : w.claimReward token this msg = .error (.underflow site)) : site = .freeBalance := by
  unfold claimReward at h
  simp only [Except.bind_eq_error_iff, require_eq_error_iff, mul_eq_error_iff, sub_eq_error_iff,
    mul_eq_ok_iff, transferToken_ne_underflow, pure, Except.pure, reduceCtorEq, and_false,
    exists_false, false_or, or_false] at h
  obtain ⟨_, -, h | ⟨_, -, _, -, _, ⟨-, rfl⟩, hlt, -⟩⟩ := h
  · exact getBalance_underflow h
  · exact absurd (RollupStaking.Sound.earned_le hs msg.sender) hlt

theorem withdrawRemainingTokens_underflow (hs : w.Sound msg.timestamp)
    (h : w.withdrawRemainingTokens token this msg = .error (.underflow site)) :
    site = .freeBalance ∨ site = .remainingBalance := by
  unfold withdrawRemainingTokens at h
  simp only [Except.bind_eq_error_iff, require_eq_error_iff, sub_eq_error_iff,
    onlyOwner_ne_underflow, transferToken_ne_underflow, pure, Except.pure, reduceCtorEq,
    Revert.underflow.injEq, and_false, exists_false, false_or, or_false] at h
  obtain ⟨_, -, h | ⟨_, -, h | ⟨_, -, _, -, -, h⟩⟩⟩ := h
  · exact .inl (getBalance_underflow h)
  · cases RollupStaking.calculatePendingRewards_error hs.clock h
  · exact .inr h.symm

theorem commenceUnstaking_ne_underflow (hs : w.Sound time) :
    w.commenceUnstaking msg ≠ .error (.underflow site) := by
  intro h
  unfold commenceUnstaking at h
  simp only [Except.bind_eq_error_iff, require_eq_error_iff, require_eq_ok_iff, sub_eq_error_iff,
    pure, Except.pure, reduceCtorEq, and_false, exists_false, false_or, or_false] at h
  obtain ⟨_, -, _, hactive, hlt, -⟩ := h
  exact hlt (RollupStaking.Sound.active_le hs hactive)

theorem withdrawStake_underflow (h : w.withdrawStake token this msg = .error (.underflow site)) :
    site = .fee ∨ site = .freeBalance ∨ site = .totalStaked := by
  unfold withdrawStake at h
  simp only [Except.bind_eq_error_iff, require_eq_error_iff, sub_eq_error_iff, mul_eq_error_iff,
    add_eq_error_iff, RollupStaking.resetReward_ne_underflow, payReward_ne_underflow,
    transferEther_ne_underflow, pure, Except.pure, reduceCtorEq, Revert.underflow.injEq,
    and_false, exists_false, false_or, or_false] at h
  obtain ⟨_, -, _, -, _, -, _, -, _, -, ⟨-, h⟩ | ⟨_, -, h | ⟨_, -, _, -, -, h⟩⟩⟩ := h
  · exact .inl h.symm
  · exact .inr (.inl (getBalance_underflow h))
  · exact .inr (.inr h.symm)

/-- The body of a function does not go below zero where it has to do with the rewards. -/
theorem body_ne_underflow (hs : w.Sound msg.timestamp) (hsite : site ∈ Subtraction.ofRewards) :
    w.body token this msg f ≠ .error (.underflow site) := by
  intro h
  cases f with
  | stake value => simp [body, stake, Except.bind_eq_error_iff, pure, Except.pure] at h
  | claimReward =>
    rw [claimReward_underflow hs h] at hsite
    exact absurd hsite (by decide)
  | withdrawRemainingTokens =>
    rcases withdrawRemainingTokens_underflow hs h with rfl | rfl
    · exact absurd hsite (by decide)
    · exact absurd hsite (by decide)
  | commenceUnstaking => exact commenceUnstaking_ne_underflow hs h
  | setUnstakeFeePercent fee =>
    simp [body, setUnstakeFeePercent, onlyOwner_ne_underflow, Except.bind_eq_error_iff, pure,
      Except.pure] at h
  | setUnstakeTime coolDownTime =>
    simp [body, setUnstakeTime, onlyOwner_ne_underflow, Except.bind_eq_error_iff, pure,
      Except.pure] at h
  | withdrawStake =>
    rcases withdrawStake_underflow h with rfl | rfl | rfl
    · exact absurd hsite (by decide)
    · exact absurd hsite (by decide)
    · exact absurd hsite (by decide)

theorem updateReward_sound {a : Address} (hs : w.Sound time) (ht : time ≤ msg.timestamp)
    (h : w.updateReward msg a = .ok w') : w'.Sound msg.timestamp := by
  obtain ⟨s, hupdate, h⟩ := Except.bind_eq_ok_iff.1 h
  cases h
  obtain ⟨hfits, rfl⟩ := RollupStaking.updateReward_eq_ok_iff.1 hupdate
  exact RollupStaking.Sound.updated hs ht hfits

theorem execute_ne_underflow (hs : w.Sound time) (ht : time ≤ msg.timestamp)
    (hsite : site ∈ Subtraction.ofRewards) :
    w.execute token this msg f ≠ .error (.underflow site) := by
  intro h
  have hclock := (RollupStaking.Sound.later hs ht).clock
  unfold execute at h
  split at h
  · next account haccount =>
    rcases Except.bind_eq_error_iff.1 h with h | ⟨w', hupdate, h⟩
    · rcases Except.bind_eq_error_iff.1 h with h | ⟨_, -, h⟩
      · cases RollupStaking.updateReward_error hclock (hs.backed.debt_le account) h
      · cases h
    · exact body_ne_underflow (updateReward_sound hs ht hupdate) hsite h
  · exact body_ne_underflow (RollupStaking.Sound.later hs ht) hsite h

end State

end Staking

section Rewards

variable {σ : Type} {token : IERC20 σ} {this : Address} {c : Staking.Chain σ}

/-- What is pending covers what is earned and what is not yet settled, and is no more than the
rewards of the whole period. From then on neither a call nor a view goes below zero in the
rewards, and the test of what is pending in `withdrawStake`, after its update, succeeds. -/
theorem staking_rewards_backed (h : c.Reachable token this) :
    SCALE * ∑ a, (c.state.contract.stakers a).earnedRewards +
        ∑ a with (c.state.contract.stakers a).unstakeStartTime = 0,
          (c.state.contract.stakers a).stakedAmount *
            (c.state.contract.rewardPerTokenAccrued - (c.state.contract.stakers a).debtInRewards) ≤
      c.state.contract.rewardsPendingAccumulated ∧
    (∀ a, (c.state.contract.stakers a).debtInRewards ≤ c.state.contract.rewardPerTokenAccrued) ∧
    c.state.contract.rewardsPendingAccumulated ≤ c.state.contract.rewardRatePerBlock * SCALE *
      (c.state.contract.closureTime - c.state.contract.launchTime) ∧
    ∀ msg : Call, c.time ≤ msg.timestamp →
      (∀ f, ∀ site ∈ Subtraction.ofRewards,
        c.state.execute token this msg f ≠ .error (.underflow site)) ∧
      (∀ site, c.state.contract.calculatePendingRewards msg.timestamp ≠ .error (.underflow site) ∧
        c.state.contract.rewardPerToken msg.timestamp ≠ .error (.underflow site) ∧
        ∀ a, c.state.contract.calculateEarnedRewards msg.timestamp a ≠
          .error (.underflow site)) ∧
      ∀ w, c.state.updateReward msg msg.sender = .ok w →
        (w.contract.stakers msg.sender).earnedRewards * SCALE ≤
          w.contract.rewardsPendingAccumulated := by
  have hs := h.sound
  have howed := hs.backed.owed_le
  rw [RollupStaking.pool_owed_eq] at howed
  refine ⟨howed, hs.backed.debt_le, ?_, fun msg ht => ?_⟩
  · have hclosure := hs.clock.trans RollupStaking.lastApplicableTime_le
    exact hs.bounded.trans (Nat.mul_le_mul_left _ (Nat.sub_le_sub_right hclosure _))
  · have hclock := (RollupStaking.Sound.later hs ht).clock
    refine ⟨fun f site hsite => State.execute_ne_underflow hs ht hsite, fun site => ⟨?_, ?_,
      fun a => ?_⟩, fun w hw => ?_⟩
    · intro hfail
      cases RollupStaking.calculatePendingRewards_error hclock hfail
    · intro hfail
      cases RollupStaking.rewardPerToken_error hclock hfail
    · intro hfail
      cases RollupStaking.calculateEarnedRewards_error hclock (hs.backed.debt_le a) hfail
    · exact RollupStaking.Sound.earned_le (State.updateReward_sound hs ht hw) msg.sender

theorem staking_rewards_backed_of_two_stakers :
    ∃ c : Staking.Chain (Address → ℕ), c.Reachable ledgerToken 255#160 ∧
      (c.state.contract.stakers 2#160).earnedRewards = 1 ∧
      SCALE * ∑ a, (c.state.contract.stakers a).earnedRewards ≤ 1999999999999999990 ∧
      c.state.execute ledgerToken 255#160 ⟨3#160, 103, true, false⟩ .claimReward ≠
        .error (.underflow .pendingRewards) := by
  obtain ⟨c, hrun⟩ : ∃ c, (smallChain 1000).run ledgerToken 255#160
      [callAt 2#160 1 (.stake 10), callAt 3#160 2 (.stake 20), callAt 2#160 3 .commenceUnstaking] =
        some c := ⟨_, rfl⟩
  have hc := reachable_smallChain hrun
  have hvalues : c.time ≤ 103 ∧ (c.state.contract.stakers 2#160).earnedRewards = 1 ∧
      c.state.contract.rewardsPendingAccumulated = 1999999999999999990 := by
    cases hrun
    decide +kernel
  obtain ⟨hbacked, -, -, hsafe⟩ := staking_rewards_backed hc
  rw [hvalues.2.2] at hbacked
  exact ⟨c, hc, hvalues.2.1, (Nat.le_add_right _ _).trans hbacked,
    (hsafe ⟨3#160, 103, true, false⟩ hvalues.1).1 .claimReward .pendingRewards (by decide)⟩

end Rewards

/-! ## The others -/

namespace RollupStaking

variable {s : RollupStaking} {t t' : ℕ} {a b : Address}

theorem shareSince_mono (h : t ≤ t') : s.shareSince t ≤ s.shareSince t' := by
  have htime := lastApplicableTime_mono (s := s) h
  unfold shareSince rewardsSince
  gcongr

theorem earnedAt_mono (h : t ≤ t') : s.earnedAt t a ≤ s.earnedAt t' a :=
  RewardPool.Member.due_mono (Nat.add_le_add_left (shareSince_mono h) _)

theorem earnedAt_of_unstaking (h : (s.stakers a).unstakeStartTime ≠ 0) :
    s.earnedAt t a = (s.stakers a).earnedRewards :=
  Staker.due_of_unstaking h

theorem shareSince_of_clock (h : s.lastUpdateTime = s.lastApplicableTime t) :
    s.shareSince t = 0 := by
  rw [shareSince, rewardsSince, h, Nat.sub_self, Nat.zero_mul, Nat.zero_mul, Nat.zero_div]

/-- Up to date, the index is the stored one. -/
theorem indexAt_of_clock (h : s.lastUpdateTime = s.lastApplicableTime t) :
    s.indexAt t = s.rewardPerTokenAccrued := by
  rw [indexAt, shareSince_of_clock h, Nat.add_zero]

/-- An update changes no one's reward of the moment. -/
theorem earnedAt_updated : (s.updated t a).earnedAt t b = s.earnedAt t b := by
  unfold earnedAt
  rw [indexAt_of_clock ready_updated.clock, updated_rewardPerTokenAccrued]
  rcases eq_or_ne b a with rfl | hne
  · rw [updated_stakers_self]
    by_cases hactive : (s.stakers b).unstakeStartTime = 0
    · rw [Staker.member_settled hactive, RewardPool.Member.due_settle]
    · rw [Staker.settled_of_unstaking hactive]
  · rw [updated_stakers_of_ne hne]

theorem changed_index (st : Staker) (staked active fees pending : ℕ) :
    (s.changed a st staked active fees pending).rewardPerTokenAccrued = s.rewardPerTokenAccrued ∧
      (s.changed a st staked active fees pending).lastUpdateTime = s.lastUpdateTime ∧
      (s.changed a st staked active fees pending).closureTime = s.closureTime :=
  ⟨rfl, rfl, rfl⟩

theorem updated_unstakeStartTime : ((s.updated t a).stakers b).unstakeStartTime =
    (s.stakers b).unstakeStartTime := by
  rcases eq_or_ne b a with rfl | hne
  · rw [updated_stakers_self, Staker.settled_unstakeStartTime]
  · rw [updated_stakers_of_ne hne]

end RollupStaking

namespace Staking

variable {σ : Type} {token : IERC20 σ} {this : Address} {w w' : State σ} {msg : Call}
  {f : Function} {events : List Event} {a : Address} {c c' : Chain σ}

/-- A body touches no entry of `stakers` but that of the sender. -/
theorem Moves.stakers_of_ne (h : Moves token this w msg f w' events) (hne : a ≠ msg.sender) :
    w'.contract.stakers a = w.contract.stakers a := by
  cases h
  case withdrawRemainingTokens | setUnstakeFeePercent | setUnstakeTime => rfl
  all_goals exact Function.update_of_ne hne _ _

/-- A body leaves the index and the clock. -/
theorem Moves.index_eq (h : Moves token this w msg f w' events) :
    w'.contract.rewardPerTokenAccrued = w.contract.rewardPerTokenAccrued ∧
      w'.contract.lastUpdateTime = w.contract.lastUpdateTime ∧
      w'.contract.closureTime = w.contract.closureTime := by
  cases h
  case withdrawRemainingTokens | setUnstakeFeePercent | setUnstakeTime =>
    exact ⟨rfl, rfl, rfl⟩
  all_goals exact RollupStaking.changed_index _ _ _ _ _

/-- So it leaves the index of the moment, once the rewards are up to date. -/
theorem Moves.indexAt_eq (h : Moves token this w msg f w' events)
    (hready : ∀ b, f.updates msg = some b → w.contract.Ready msg.timestamp b) :
    w'.contract.indexAt msg.timestamp = w.contract.indexAt msg.timestamp := by
  cases hupdates : f.updates msg with
  | none =>
    cases h with
    | setUnstakeFeePercent | setUnstakeTime =>
      unfold RollupStaking.indexAt RollupStaking.shareSince RollupStaking.rewardsSince
        RollupStaking.lastApplicableTime
      rfl
    | _ => cases hupdates
  | some b =>
    obtain ⟨hindex, htime, hclosure⟩ := h.index_eq
    have hclock := (hready b hupdates).clock
    have hclock' : w'.contract.lastUpdateTime =
        w'.contract.lastApplicableTime msg.timestamp := by
      unfold RollupStaking.lastApplicableTime at hclock ⊢
      rw [htime, hclosure, hclock]
    rw [RollupStaking.indexAt_of_clock hclock, RollupStaking.indexAt_of_clock hclock', hindex]

theorem State.prepared_earnedAt :
    (w.prepared msg f).contract.earnedAt msg.timestamp a =
      w.contract.earnedAt msg.timestamp a := by
  unfold prepared
  split
  · exact RollupStaking.earnedAt_updated
  · rfl

theorem State.prepared_unstakeStartTime :
    ((w.prepared msg f).contract.stakers a).unstakeStartTime =
      (w.contract.stakers a).unstakeStartTime := by
  unfold prepared
  split
  · exact RollupStaking.updated_unstakeStartTime
  · rfl

/-- A call by another account leaves the reward of the moment, and whether one unstakes. -/
theorem State.execute_other (h : w.execute token this msg f = .ok (w', events))
    (hne : a ≠ msg.sender) :
    w'.contract.earnedAt msg.timestamp a = w.contract.earnedAt msg.timestamp a ∧
      (w'.contract.stakers a).unstakeStartTime = (w.contract.stakers a).unstakeStartTime := by
  obtain ⟨-, hmoves⟩ := State.execute_moves h
  have hstaker := hmoves.stakers_of_ne hne
  constructor
  · rw [← State.prepared_earnedAt (w := w) (f := f), RollupStaking.earnedAt,
      RollupStaking.earnedAt, hstaker, hmoves.indexAt_eq fun b hb => State.prepared_ready hb]
  · rw [hstaker, State.prepared_unstakeStartTime]

/-- The sender of an action is not `a`. -/
def Action.NotBy (a : Address) : Action σ → Prop
  | .call msg _ => msg.sender ≠ a
  | .token _ => True

/-- The reward of `a` is at least `n` by now, and just that if it unstakes, since `start`. -/
structure Chain.Keeps (a : Address) (n start : ℕ) (c : Chain σ) : Prop where
  reward : n ≤ c.state.contract.earnedAt c.time a
  since : (c.state.contract.stakers a).unstakeStartTime = start
  frozen : start ≠ 0 → (c.state.contract.stakers a).earnedRewards = n

theorem Chain.step_keeps {n start : ℕ} {action : Action σ} (hnot : action.NotBy a)
    (hc : c.Keeps a n start) (h : c.step token this action = some c') : c'.Keeps a n start := by
  rcases Chain.step_cases h with ⟨next, -, rfl⟩ | ⟨msg, f, rfl, -, -, ht, rfl⟩
  · exact ⟨hc.reward, hc.since, hc.frozen⟩
  · have hreward := hc.reward.trans (RollupStaking.earnedAt_mono ht)
    rcases c.state.after_cases token this msg f with ⟨e, -, heq⟩ | ⟨events, h⟩
    · rw [heq]
      exact ⟨hreward, hc.since, hc.frozen⟩
    · obtain ⟨hearned, hstart⟩ := State.execute_other h (Ne.symm hnot)
      have hsince := hstart.trans hc.since
      refine ⟨hreward.trans hearned.ge, hsince, fun hne => ?_⟩
      rw [RollupStaking.earnedAt_of_unstaking (hsince.trans_ne hne),
        RollupStaking.earnedAt_of_unstaking (hc.since.trans_ne hne)] at hearned
      exact hearned.trans (hc.frozen hne)

end Staking

section Growth

variable {σ : Type} {token : IERC20 σ} {this : Address} {c c' : Staking.Chain σ} {a : Address}
  {actions : List (Action σ)} {t : ℕ}

/-- From a moment on, while others act, what an account reads off as its reward does not fall,
unless a sum or a product overflows, and does not change if it unstakes. -/
theorem others_keep_rewards (h : c.Reachable token this) (ht : c.time ≤ t)
    (hothers : ∀ action ∈ actions, action.NotBy a)
    (hrun : Staking.Chain.run token this { c with time := t } actions = some c') :
    (∀ n, c.state.contract.calculateEarnedRewards t a = .ok n → ∀ t', c'.time ≤ t' →
      c'.state.contract.calculateEarnedRewards t' a = .error .overflow ∨
        ∃ n', n ≤ n' ∧ c'.state.contract.calculateEarnedRewards t' a = .ok n') ∧
    ((c.state.contract.stakers a).unstakeStartTime ≠ 0 →
      (c'.state.contract.stakers a).unstakeStartTime =
        (c.state.contract.stakers a).unstakeStartTime ∧
      ∀ t', c'.state.contract.calculateEarnedRewards t' a =
        c.state.contract.calculateEarnedRewards t a) := by
  have hstart : ({ c with time := t } : Staking.Chain σ).Keeps a (c.state.contract.earnedAt t a)
      (c.state.contract.stakers a).unstakeStartTime :=
    ⟨le_rfl, rfl, fun hne => (RollupStaking.earnedAt_of_unstaking hne).symm⟩
  have hkeeps := Staking.Chain.run_keeps (fun c action c' hmem hc hstep =>
    Staking.Chain.step_keeps (hothers action hmem) hc hstep) hstart hrun
  have hlater : ({ c with time := t } : Staking.Chain σ).state.Sound t :=
    RollupStaking.Sound.later h.sound ht
  have hsound : c'.state.Sound c'.time :=
    Staking.Chain.run_keeps (P := fun c => c.state.Sound c.time)
      (fun c action c' _ hs hstep => Staking.Chain.step_sound hs hstep) hlater hrun
  constructor
  · intro n hn t' ht'
    have hclock := (RollupStaking.Sound.later hsound ht').clock
    cases hview : c'.state.contract.calculateEarnedRewards t' a with
    | error e =>
      rw [RollupStaking.calculateEarnedRewards_error hclock (hsound.backed.debt_le a) hview]
      exact .inl rfl
    | ok n' =>
      refine .inr ⟨n', ?_, rfl⟩
      rw [← (RollupStaking.calculateEarnedRewards_eq_ok_iff.1 hn).2,
        ← (RollupStaking.calculateEarnedRewards_eq_ok_iff.1 hview).2]
      exact hkeeps.reward.trans (RollupStaking.earnedAt_mono ht')
  · intro hne
    refine ⟨hkeeps.since, fun t' => ?_⟩
    rw [RollupStaking.calculateEarnedRewards_of_unstaking (hkeeps.since.trans_ne hne),
      RollupStaking.calculateEarnedRewards_of_unstaking hne, hkeeps.frozen hne,
      RollupStaking.earnedAt_of_unstaking hne]

theorem others_keep_rewards_of_one_staker : ∃ c c' : Staking.Chain (Address → ℕ),
    c.Reachable ledgerToken 255#160 ∧
    Staking.Chain.run ledgerToken 255#160 { c with time := 2 }
      [callAt 3#160 2 (.stake 20), callAt 3#160 4 .claimReward] = some c' ∧
    c.state.contract.calculateEarnedRewards 2 2#160 = .ok 1 ∧
    ∃ n', 1 ≤ n' ∧ c'.state.contract.calculateEarnedRewards 5 2#160 = .ok n' := by
  obtain ⟨c, hrun⟩ : ∃ c, (smallChain 1000).run ledgerToken 255#160 [callAt 2#160 1 (.stake 10)] =
    some c := ⟨_, rfl⟩
  have hc := reachable_smallChain hrun
  obtain ⟨c', hrun'⟩ : ∃ c', Staking.Chain.run ledgerToken 255#160 { c with time := 2 }
      [callAt 3#160 2 (.stake 20), callAt 3#160 4 .claimReward] = some c' := by
    cases hrun
    exact ⟨_, rfl⟩
  have hothers : ∀ action ∈ [callAt 3#160 2 (.stake 20), callAt 3#160 4 .claimReward],
      action.NotBy 2#160 := by
    intro action hmem
    simp only [List.mem_cons, List.not_mem_nil, or_false] at hmem
    have hne : (3#160 : Address) ≠ 2#160 := by decide
    rcases hmem with rfl | rfl
    · exact hne
    · exact hne
  have hlast := hrun'
  obtain ⟨ht, ht', hn, hfits⟩ : c.time ≤ 2 ∧ c'.time ≤ 5 ∧
      c.state.contract.calculateEarnedRewards 2 2#160 = .ok 1 ∧
      c'.state.contract.calculateEarnedRewards 5 2#160 ≠ .error .overflow := by
    cases hrun
    cases hrun'
    decide +kernel
  have hkeeps := (others_keep_rewards hc ht hothers hrun').1 1 hn 5 ht'
  exact ⟨c, c', hc, hlast, hn, hkeeps.resolve_left hfits⟩

end Growth

end Lasr
