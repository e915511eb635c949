import Lasr.StakingRewards
import Mathlib.Logic.Relation

/-!
# Solvency of the staking contract

`withdrawRemainingTokens` leaves the stakes, the fees and the rewards that are pending, rounded
down, and nothing more. By then the period is over, the rewards stand still, and a call takes
from the balance of the token no more than from what is pending (`Solvent`). So every reward is
paid to the end (`solvent_after_withdrawal`).

Without the token, the ether is not free either. A withdrawal of a stake looks at the balance
of the token, and goes through if and only if that has the stakes and the fees besides the
reward it pays (`withdrawStake_pays_iff`).
-/

set_option linter.unusedSectionVars false

namespace Lasr

open Staking

/-! ## After the end of the period -/

namespace RollupStaking

variable {s : RollupStaking} {balance time t : ℕ} {a : Address}

/-- Once the rewards stand still, nothing overflows. -/
theorem Sound.updateFits (h : s.Sound balance time)
    (hclock : s.lastUpdateTime = s.lastApplicableTime t) (a : Address) : s.UpdateFits t a := by
  have hindex := indexAt_of_clock hclock
  have hzero : s.lastApplicableTime t - s.lastUpdateTime = 0 := by omega
  have hrewards : s.rewardsSince t = 0 := by rw [rewardsSince, hzero, Nat.zero_mul, Nat.zero_mul]
  have howed := h.backed.member_owed_le a
  have hdue := h.backed.scale_mul_due_le a
  refine ⟨fun _ => ⟨hclock.le, ?_, ?_⟩, fun _ => ?_, fun _ => ?_, fun hactive => ⟨?_, ?_, ?_⟩⟩
  · rw [hzero, Nat.zero_mul]
    exact zero_lt_WORD
  · rw [hrewards]
    exact zero_lt_WORD
  · rw [hindex]
    exact h.index_word
  · rw [hrewards]
    exact h.pending_word
  · rw [hindex]
    exact h.backed.debt_le a
  · rw [hindex]
    have hshare : (s.stakers a).member.share = (s.stakers a).stakedAmount := if_pos hactive
    have hle : (s.stakers a).member.share * (s.rewardPerTokenAccrued -
      (s.stakers a).debtInRewards) ≤ s.rewardsPendingAccumulated :=
      (Nat.le_add_left _ _).trans howed
    rw [hshare] at hle
    exact hle.trans_lt h.pending_word
  · rw [hindex]
    have hle : (s.stakers a).member.due SCALE s.rewardPerTokenAccrued ≤
        SCALE * (s.stakers a).member.due SCALE s.rewardPerTokenAccrued :=
      Nat.le_mul_of_pos_left _ (by decide)
    exact (hle.trans hdue).trans_lt h.pending_word

/-- The pending rewards stand still. -/
theorem updated_pending_of_clock (hclock : s.lastUpdateTime = s.lastApplicableTime t) :
    (s.updated t a).rewardsPendingAccumulated = s.rewardsPendingAccumulated := by
  rw [updated_rewardsPendingAccumulated, shareSince_of_clock hclock, Nat.mul_zero, Nat.add_zero]

theorem lastApplicableTime_of_closed (h : s.closureTime < t) :
    s.lastApplicableTime t = s.closureTime :=
  if_neg (by omega)

/-- In whole units, too, a reward that is paid is taken from what is pending. -/
theorem Sound.pendingWithout_div (h : s.Sound balance t) (a : Address) :
    s.pendingWithout (s.stakers a).earnedRewards / SCALE + (s.stakers a).earnedRewards =
      s.rewardsPendingAccumulated / SCALE := by
  rw [← h.pendingWithout_add a, Nat.add_mul_div_left _ _ (by decide)]

end RollupStaking

namespace Staking

section Solvent

variable {σ : Type} {token : IERC20 σ} {this : Address} {w w' : State σ} {msg : Call}
  {f : Function} {events : List Event} {c c' : Chain σ} {time : ℕ} {a : Address}

/-- Transfers of the token move exact amounts, and succeed when the balance suffices. The address
zero is no party to a transfer. -/
structure IERC20.Exact (token : IERC20 σ) : Prop where
  succeeds : ∀ s sender recipient amount, sender ≠ 0#160 → recipient ≠ 0#160 →
    amount ≤ token.balanceOf s sender → ∃ s', token.transfer s sender recipient amount = some s'
  moves : ∀ s sender recipient amount s', token.transfer s sender recipient amount = some s' →
    ∀ a, token.balanceOf s' a + (if a = sender then amount else 0) =
      token.balanceOf s a + (if a = recipient then amount else 0)

/-- What the contract pays is all that its balance falls by. -/
theorem IERC20.Exact.balanceOf_le (hexact : token.Exact) {s s' : σ} {recipient : Address}
    {amount : ℕ} (h : token.transfer s this recipient amount = some s') :
    token.balanceOf s this ≤ token.balanceOf s' this + amount := by
  have hmoves := hexact.moves s this recipient amount s' h this
  rw [if_pos rfl] at hmoves
  omega

/-- The period is over, and the balance of the token has what is pending besides what is for
ether. -/
structure State.Solvent (token : IERC20 σ) (this : Address) (w : State σ) (time : ℕ) : Prop where
  closed : w.contract.closureTime < time
  clock : w.contract.lastUpdateTime = w.contract.closureTime
  funded : w.contract.reserved + w.contract.rewardsPendingAccumulated / SCALE ≤
    token.balanceOf w.token this

namespace State

theorem Solvent.later (h : w.Solvent token this time) (ht : time ≤ msg.timestamp) :
    w.Solvent token this msg.timestamp :=
  { h with closed := h.closed.trans_le ht }

theorem Solvent.upToDate (h : w.Solvent token this time) (ht : time ≤ msg.timestamp) :
    w.contract.lastUpdateTime = w.contract.lastApplicableTime msg.timestamp := by
  rw [RollupStaking.lastApplicableTime_of_closed (h.closed.trans_le ht)]
  exact h.clock

theorem Solvent.updated (h : w.Solvent token this time) (ht : time ≤ msg.timestamp) :
    State.Solvent token this
      { w with contract := w.contract.updated msg.timestamp a } msg.timestamp := by
  refine ⟨h.closed.trans_le ht, ?_, ?_⟩
  · rw [RollupStaking.updated_lastUpdateTime, RollupStaking.updated_closureTime]
    exact RollupStaking.lastApplicableTime_of_closed (h.closed.trans_le ht)
  · rw [RollupStaking.updated_reserved, RollupStaking.updated_pending_of_clock (h.upToDate ht)]
    exact h.funded

theorem Solvent.prepared (h : w.Solvent token this time) (ht : time ≤ msg.timestamp) :
    (w.prepared msg f).Solvent token this msg.timestamp := by
  unfold State.prepared
  split
  · exact h.updated ht
  · exact h.later ht

/-- The balance has every reward. -/
theorem Solvent.covers (h : w.Solvent token this time) (hs : w.Sound time) (a : Address) :
    w.covers token this a = true := by
  have hle := (Nat.le_div_iff_mul_le (by decide)).2 (RollupStaking.Sound.earned_le hs a)
  have hfunded := h.funded
  rw [State.covers, decide_eq_true_iff]
  omega

/-- One staker is changed, and the totals with it. -/
theorem Solvent.changed {st : Staker} {staked active fees pending balance : ℕ} {next : σ}
    (h : w.Solvent token this time)
    (hfunded : staked + fees + pending / SCALE ≤ token.balanceOf next this) :
    State.Solvent token this
      ⟨w.contract.changed a st staked active fees pending, balance, next⟩ time := by
  obtain ⟨-, hclock, hclosure⟩ := RollupStaking.changed_index (s := w.contract) (a := a) st staked
    active fees pending
  exact ⟨hclosure.trans_lt h.closed, hclock.trans (h.clock.trans hclosure.symm), hfunded⟩

end State

/-- The owner leaves what is pending. -/
theorem Moves.solvent_of_withdrawRemainingTokens (hexact : token.Exact)
    (h : Moves token this w msg .withdrawRemainingTokens w' events)
    (hclock : w.contract.lastUpdateTime = w.contract.lastApplicableTime msg.timestamp) :
    w'.Solvent token this msg.timestamp := by
  cases h with
  | withdrawRemainingTokens howner hclosed hpending hfree htransfer =>
    have hpaid := hexact.balanceOf_le htransfer
    have hstill := (RollupStaking.calculatePendingRewards_eq_ok_iff.1 hpending).2
    rw [RollupStaking.shareSince_of_clock hclock, Nat.mul_zero, Nat.add_zero] at hstill
    rw [RollupStaking.lastApplicableTime_of_closed hclosed] at hclock
    refine ⟨hclosed, hclock, ?_⟩
    dsimp only
    rw [hstill]
    omega

theorem State.Withdraws.balanceOf_le (hexact : token.Exact) {next : σ}
    (h : w.Withdraws token this msg next) : token.balanceOf w.token this ≤
      token.balanceOf next this + (w.contract.stakers msg.sender).earnedRewards := by
  have htransfer := h.transfer
  split at htransfer
  · rw [htransfer]
    exact Nat.le_add_right _ _
  · exact hexact.balanceOf_le htransfer

theorem Moves.solvent (hexact : token.Exact) (h : Moves token this w msg f w' events)
    (hs : w.Sound msg.timestamp) (hw : w.Solvent token this msg.timestamp) :
    w'.Solvent token this msg.timestamp := by
  have hfunded := hw.funded
  have hpending := RollupStaking.Sound.pendingWithout_div hs msg.sender
  unfold RollupStaking.reserved at hfunded
  cases h with
  | stake hword hvalue hlaunch hclosure hactive =>
    have hclosed := hw.closed
    omega
  | claimReward hreward hcovers hle htransfer =>
    have hpaid := hexact.balanceOf_le htransfer
    refine hw.changed ?_
    omega
  | withdrawRemainingTokens howner hclosed hok hfree htransfer =>
    have hclock : w.contract.lastUpdateTime = w.contract.lastApplicableTime msg.timestamp :=
      hw.upToDate le_rfl
    exact Moves.solvent_of_withdrawRemainingTokens hexact
      (.withdrawRemainingTokens howner hclosed hok hfree htransfer) hclock
  | commenceUnstaking hstaked hactive htotal => exact hw.changed hfunded
  | setUnstakeFeePercent hfee => exact ⟨hw.closed, hw.clock, hfunded⟩
  | setUnstakeTime htime => exact ⟨hw.closed, hw.clock, hfunded⟩
  | withdrawStake h =>
    have hpaid := h.balanceOf_le hexact
    have hfee := h.fee
    have htotal := h.total
    refine hw.changed ?_
    rw [hw.covers hs msg.sender, if_pos rfl]
    omega

/-- A call leaves the contract solvent. -/
theorem State.after_solvent (hexact : token.Exact) (hs : w.Sound time)
    (hw : w.Solvent token this time) (ht : time ≤ msg.timestamp) :
    (w.after token this msg f).Solvent token this msg.timestamp := by
  rcases w.after_cases token this msg f with ⟨e, -, heq⟩ | ⟨events, h⟩
  · rw [heq]
    exact hw.later ht
  · obtain ⟨hfits, hmoves⟩ := State.execute_moves h
    exact hmoves.solvent hexact (State.prepared_sound hs ht hfits) (hw.prepared ht)

/-- One action leads on, and others take no tokens from the contract. -/
def Chain.Follows (token : IERC20 σ) (this : Address) (c c' : Chain σ) : Prop :=
  ∃ action, c.step token this action = some c' ∧
    ∀ next, action = .token next →
      token.balanceOf c.state.token this ≤ token.balanceOf next this

theorem Chain.Follows.solvent (hexact : token.Exact) (h : Chain.Follows token this c c')
    (hs : c.state.Sound c.time) (hc : c.state.Solvent token this c.time) :
    c'.state.Solvent token this c'.time := by
  obtain ⟨action, hstep, hspares⟩ := h
  rcases Chain.step_cases hstep with ⟨next, rfl, rfl⟩ | ⟨msg, f, rfl, -, -, ht, rfl⟩
  · exact ⟨hc.closed, hc.clock, hc.funded.trans (hspares next rfl)⟩
  · exact State.after_solvent hexact hs hc ht

theorem Chain.later_solvent (hexact : token.Exact)
    (h : Relation.ReflTransGen (Chain.Follows token this) c c') (hs : c.state.Sound c.time)
    (hc : c.state.Solvent token this c.time) :
    c'.state.Sound c'.time ∧ c'.state.Solvent token this c'.time := by
  induction h with
  | refl => exact ⟨hs, hc⟩
  | tail _ hfollows ih =>
    have hsolvent := hfollows.solvent hexact ih.1 ih.2
    obtain ⟨action, hstep, -⟩ := hfollows
    exact ⟨Chain.step_sound ih.1 hstep, hsolvent⟩

theorem State.Solvent.updateReward_eq (hw : w.Solvent token this time) (hs : w.Sound time)
    (ht : time ≤ msg.timestamp) (a : Address) : w.updateReward msg a =
      .ok { w with contract := w.contract.updated msg.timestamp a } :=
  Except.bind_eq_ok_iff.2 ⟨_, RollupStaking.updateReward_eq_ok_iff.2
    ⟨RollupStaking.Sound.updateFits hs (hw.upToDate ht) a, rfl⟩, rfl⟩

/-- A reward is paid in full. -/
theorem State.Solvent.claimReward (hexact : token.Exact) (hthis : this ≠ 0#160)
    (hsender : msg.sender ≠ 0#160) (hw : w.Solvent token this time) (hs : w.Sound time)
    (ht : time ≤ msg.timestamp) (hpos : 0 < w.contract.earnedAt msg.timestamp msg.sender) :
    ∃ w', w.execute token this msg .claimReward =
        .ok (w', [.rewardPaid msg.sender (w.contract.earnedAt msg.timestamp msg.sender)]) ∧
      token.transfer w.token this msg.sender
        (w.contract.earnedAt msg.timestamp msg.sender) = some w'.token := by
  have hfits := RollupStaking.Sound.updateFits hs (hw.upToDate ht) msg.sender
  have hs' := RollupStaking.Sound.updated hs ht hfits
  have hw' := hw.updated (a := msg.sender) ht
  have hearned : ((w.contract.updated msg.timestamp msg.sender).stakers
      msg.sender).earnedRewards = w.contract.earnedAt msg.timestamp msg.sender := by
    rw [RollupStaking.updated_stakers_self, Staker.settled_earnedRewards]
    rfl
  have hcovers := hw'.covers hs' msg.sender
  have hpending := RollupStaking.Sound.earned_le hs' msg.sender
  have hbalance : w.contract.earnedAt msg.timestamp msg.sender ≤
      token.balanceOf w.token this := by
    rw [State.covers, decide_eq_true_iff, hearned] at hcovers
    dsimp only at hcovers
    omega
  obtain ⟨next, hnext⟩ := hexact.succeeds w.token this msg.sender _ hthis hsender hbalance
  rw [← hearned] at hpos hnext ⊢
  have hbody := State.claimReward_eq_ok_iff.2 ⟨next, hpos.ne', hcovers,
    hpending.trans_lt hs'.pending_word, hpending, hnext, rfl, rfl⟩
  refine ⟨_, State.execute_eq_ok_iff.2 ⟨fun a ha => ?_, hbody⟩, hnext⟩
  cases ha
  exact hfits

end Solvent

end Staking

section Solvency

open Relation

variable {σ : Type} {token : IERC20 σ} {this : Address} {c c' : Staking.Chain σ} {w : State σ}
  {msg : Call} {events : List Event}

/-- After the owner's withdrawal, whatever comes next, every reward can be read off and is paid
in full to the account that claims it, and a withdrawal of a stake finds its reward. The address
zero claims nothing. -/
theorem solvent_after_withdrawal (hexact : token.Exact) (hthis : this ≠ 0#160)
    (h : c.Reachable token this) (ht : c.time ≤ msg.timestamp)
    (hw : c.state.execute token this msg .withdrawRemainingTokens = .ok (w, events))
    (hlater : ReflTransGen (Staking.Chain.Follows token this) ⟨w, msg.timestamp⟩ c') :
    ∀ msg' : Call, c'.time ≤ msg'.timestamp →
      (∃ n, c'.state.contract.calculateEarnedRewards msg'.timestamp msg'.sender = .ok n ∧
        (0 < n → msg'.sender ≠ 0#160 → ∃ w', c'.state.execute token this msg' .claimReward =
            .ok (w', [.rewardPaid msg'.sender n]) ∧
          token.transfer c'.state.token this msg'.sender n = some w'.token)) ∧
      ∃ w', c'.state.updateReward msg' msg'.sender = .ok w' ∧
        ∃ n, w'.getBalance token this = .ok n ∧
          (w'.contract.stakers msg'.sender).earnedRewards ≤ n := by
  intro msg' ht'
  obtain ⟨hfits, hmoves⟩ := State.execute_moves hw
  have hready : (c.state.prepared msg .withdrawRemainingTokens).contract.Ready msg.timestamp _ :=
    State.prepared_ready rfl
  have hsolvent := hmoves.solvent_of_withdrawRemainingTokens hexact hready.clock
  have hsound := State.execute_sound h.sound ht (Nat.zero_lt_of_lt hsolvent.closed) hw
  obtain ⟨hs, hc⟩ := Staking.Chain.later_solvent hexact hlater hsound hsolvent
  have hfit := RollupStaking.Sound.updateFits hs (hc.upToDate ht') msg'.sender
  refine ⟨⟨_, RollupStaking.calculateEarnedRewards_eq_ok_iff.2 ⟨fun hactive => ⟨fun hT =>
    ⟨hfit.rewards hT, hfit.index hT⟩, hfit.earned hactive⟩, rfl⟩,
    fun hpos hsender => hc.claimReward hexact hthis hsender hs ht' hpos⟩, _,
    hc.updateReward_eq hs ht' _, ?_⟩
  have hs' := RollupStaking.Sound.updated hs ht' hfit
  have hcovers := (hc.updated (a := msg'.sender) ht').covers hs' msg'.sender
  rw [State.covers, decide_eq_true_iff] at hcovers
  exact ⟨_, State.getBalance_eq_ok_iff.2 ⟨by omega, rfl⟩, by omega⟩

theorem ledgerToken_exact : ledgerToken.Exact := by
  refine ⟨fun s sender recipient amount _ _ hle => ⟨_, if_pos hle⟩,
    fun s sender recipient amount s' h a => ?_⟩
  simp only [ledgerToken] at h ⊢
  split_ifs at h with hle
  cases h
  rcases eq_or_ne a recipient with rfl | hrecipient
  · rcases eq_or_ne a sender with rfl | hsender
    · simp
      omega
    · simp [hsender]
  · rcases eq_or_ne a sender with rfl | hsender
    · simp [hrecipient]
      omega
    · simp [hrecipient, hsender]

theorem solvent_after_withdrawal_of_one_staker :
    ∃ (c c' : Staking.Chain (Address → ℕ)) (w w' : State (Address → ℕ)) (events : List Event),
      c.Reachable ledgerToken 255#160 ∧
      c.state.execute ledgerToken 255#160 ⟨1#160, 102, true, true⟩ .withdrawRemainingTokens =
        .ok (w, events) ∧
      Staking.Chain.step ledgerToken 255#160 ⟨w, 102⟩ (callAt 2#160 103 .commenceUnstaking) =
        some c' ∧
      w.token 255#160 = 110 ∧
      c'.state.execute ledgerToken 255#160 ⟨2#160, 104, true, false⟩ .claimReward =
        .ok (w', [.rewardPaid 2#160 100]) := by
  obtain ⟨c, hrun⟩ : ∃ c, (smallChain 1000).run ledgerToken 255#160
      [callAt 2#160 1 (.stake 10)] = some c := ⟨_, rfl⟩
  have hc := reachable_smallChain hrun
  obtain ⟨htime, hok, htoken, hreward⟩ : c.time ≤ 102 ∧
      (c.state.execute ledgerToken 255#160 ⟨1#160, 102, true, true⟩ .withdrawRemainingTokens).isOk =
        true ∧
      (c.state.after ledgerToken 255#160 ⟨1#160, 102, true, true⟩ .withdrawRemainingTokens).token
        255#160 = 110 ∧
      ((c.state.after ledgerToken 255#160 ⟨1#160, 102, true, true⟩ .withdrawRemainingTokens).after
        ledgerToken 255#160 ⟨2#160, 103, true, false⟩
          .commenceUnstaking).contract.calculateEarnedRewards 104 2#160 = .ok 100 := by
    cases hrun
    decide +kernel
  rcases c.state.after_cases ledgerToken 255#160 ⟨1#160, 102, true, true⟩
    .withdrawRemainingTokens with ⟨e, he, -⟩ | ⟨events, hw⟩
  · rw [he] at hok
    cases hok
  have hlater : ReflTransGen (Staking.Chain.Follows ledgerToken 255#160)
      ⟨c.state.after ledgerToken 255#160 ⟨1#160, 102, true, true⟩ .withdrawRemainingTokens, 102⟩
      ⟨_, 103⟩ :=
    .single ⟨callAt 2#160 103 .commenceUnstaking, rfl, fun next hnext => nomatch hnext⟩
  obtain ⟨⟨n, hn, hclaim⟩, -⟩ := solvent_after_withdrawal ledgerToken_exact (by decide) hc htime
    hw hlater ⟨2#160, 104, true, false⟩ (Nat.le_succ 103)
  obtain rfl : 100 = n := Except.ok.inj (hreward.symm.trans hn)
  obtain ⟨w', hclaimed, -⟩ := hclaim (by decide) (by decide)
  exact ⟨c, _, _, w', events, hc, hw, rfl, htoken, hclaimed⟩

end Solvency

/-! ## The stakes -/

namespace Staking

variable {σ : Type} {token : IERC20 σ} {this : Address} {w w' : State σ} {msg : Call}
  {events : List Event} {time : ℕ}

/-- What a withdrawal of a stake needs of the arithmetic and of the token. -/
structure State.Pays (token : IERC20 σ) (this : Address) (w : State σ) (msg : Call) : Prop where
  sums : w.contract.totalRewardsAccrued ≠ 0 → w.contract.indexAt msg.timestamp < WORD ∧
    w.contract.rewardsPendingAccumulated + w.contract.rewardsSince msg.timestamp < WORD
  fee : (w.contract.stakers msg.sender).stakedAmount * w.contract.unstakeFeePercentage < WORD
  free : w.contract.reserved ≤ token.balanceOf w.token this
  transfer : (w.contract.stakers msg.sender).earnedRewards = 0 ∨
    (token.transfer w.token this msg.sender
      (w.contract.stakers msg.sender).earnedRewards).isSome = true

/-- An update does not change an account that unstakes. -/
theorem State.prepared_staker (h : (w.contract.stakers msg.sender).unstakeStartTime ≠ 0) :
    (w.prepared msg .withdrawStake).contract.stakers msg.sender =
      w.contract.stakers msg.sender := by
  change (w.contract.updated msg.timestamp msg.sender).stakers msg.sender = _
  rw [RollupStaking.updated_stakers_self, Staker.settled_of_unstaking h]

theorem State.Withdraws.isSome {next : σ} (h : w.Withdraws token this msg next) :
    (w.contract.stakers msg.sender).earnedRewards = 0 ∨
      (token.transfer w.token this msg.sender
        (w.contract.stakers msg.sender).earnedRewards).isSome = true := by
  have htransfer := h.transfer
  split at htransfer
  · next hzero => exact .inl hzero
  · exact .inr (Option.isSome_of_eq_some htransfer)

/-- A withdrawal that goes through had what it needs. -/
theorem State.pays_of_execute (hunstaking : (w.contract.stakers msg.sender).unstakeStartTime ≠ 0)
    (h : w.execute token this msg .withdrawStake = .ok (w', events)) :
    w.Pays token this msg := by
  obtain ⟨hfits, hbody⟩ := State.execute_eq_ok_iff.1 h
  obtain ⟨next, hw, -, -⟩ := State.withdrawStake_eq_ok_iff.1 hbody
  have hfit := hfits msg.sender rfl
  have hstaker := State.prepared_staker hunstaking
  have hfee := hw.fee_word
  have hfree := hw.free
  have htransfer := hw.isSome
  rw [hstaker] at hfee htransfer
  refine ⟨fun hT => ⟨hfit.index hT, hfit.pending hT⟩, hfee, ?_, htransfer⟩
  exact (RollupStaking.updated_reserved ▸ hfree :)

/-- A stake after its cooldown, and what the call reads besides is in order. -/
structure State.Matured (w : State σ) (msg : Call) : Prop where
  word : msg.timestamp < WORD
  staked : 0 < (w.contract.stakers msg.sender).stakedAmount
  unstaking : (w.contract.stakers msg.sender).unstakeStartTime ≠ 0
  cooldown : (w.contract.stakers msg.sender).unstakeStartTime + w.contract.unstakeCooldown ≤
    msg.timestamp
  takes : msg.takesEther = true
  rewards : w.contract.totalRewardsAccrued ≠ 0 → w.contract.RewardsFit msg.timestamp

theorem State.Pays.withdraws (hp : w.Pays token this msg) (hm : w.Matured msg)
    (hs : (w.prepared msg .withdrawStake).Sound msg.timestamp) :
    ∃ next, (w.prepared msg .withdrawStake).Withdraws token this msg next := by
  have hstaker := State.prepared_staker hm.unstaking
  obtain ⟨next, hnext⟩ : ∃ next, if (w.contract.stakers msg.sender).earnedRewards = 0
      then w.token = next
      else token.transfer w.token this msg.sender
        (w.contract.stakers msg.sender).earnedRewards = some next := by
    split
    · exact ⟨_, rfl⟩
    · next hne => exact Option.isSome_iff_exists.1 (hp.transfer.resolve_left hne)
  have hfee := RollupStaking.Sound.unstakeFee_le hs msg.sender
  have htotal := RollupStaking.Sound.staked_le hs msg.sender
  have hether := hs.ether
  have hbalance := hs.balance_word
  have hpending := RollupStaking.Sound.earned_le hs msg.sender
  unfold RollupStaking.reserved at hether
  refine ⟨next, ?_, ?_, ?_, ?_, ?_, hfee, ?_, ?_, htotal,
    fun _ => hpending.trans_lt hs.pending_word, ?_, hm.takes, ?_⟩
  · rw [hstaker]
    exact hm.staked
  · rw [hstaker]
    exact Nat.pos_of_ne_zero hm.unstaking
  · rw [hstaker]
    exact hm.cooldown.trans_lt hm.word
  · rw [hstaker]
    exact hm.cooldown
  · rw [hstaker]
    exact hp.fee
  · exact RollupStaking.updated_reserved.trans_le hp.free
  · omega
  · rw [hstaker]
    exact hnext
  · omega

/-- A withdrawal that has what it needs goes through, and pays the stake without the fee. -/
theorem State.execute_of_pays (hp : w.Pays token this msg) (hm : w.Matured msg)
    (hs : w.Sound time) (ht : time ≤ msg.timestamp) :
    ∃ w' events, w.execute token this msg .withdrawStake = .ok (w', events) ∧
      w'.balance + ((w.contract.stakers msg.sender).stakedAmount -
        w.contract.unstakeFee msg.sender) = w.balance ∧
      .unstaked msg.sender ((w.contract.stakers msg.sender).stakedAmount -
        w.contract.unstakeFee msg.sender) ∈ events := by
  have hfits : w.Fits msg .withdrawStake := by
    intro a ha
    cases ha
    exact ⟨hm.rewards, fun hT => (hp.sums hT).1, fun hT => (hp.sums hT).2,
      fun hactive => absurd hactive hm.unstaking⟩
  have hstaker := State.prepared_staker hm.unstaking
  have hfee : (w.prepared msg .withdrawStake).contract.unstakeFee msg.sender =
      w.contract.unstakeFee msg.sender := by
    unfold RollupStaking.unstakeFee
    rw [hstaker]
    rfl
  obtain ⟨next, hw⟩ := hp.withdraws hm (State.prepared_sound hs ht hfits)
  refine ⟨_, _, State.execute_eq_ok_iff.2 ⟨hfits, State.withdrawStake_eq_ok_iff.2
    ⟨next, hw, rfl, rfl⟩⟩, ?_, ?_⟩
  · have hether := hw.ether
    change w.balance - _ + _ = w.balance
    rw [hstaker, hfee] at hether ⊢
    exact Nat.sub_add_cancel hether
  · unfold State.withdrawalEvents
    rw [hstaker, hfee]
    exact List.mem_append_right _ List.mem_cons_self

end Staking

section Withdrawal

variable {σ : Type} {token : IERC20 σ} {this : Address} {c : Staking.Chain σ} {msg : Call}

/-- After the cooldown, the stake without the fee is paid if and only if the sums do not
overflow, the balance of the token has the stakes and the fees, and the reward can be paid. -/
theorem withdrawStake_pays_iff (h : c.Reachable token this) (ht : c.time ≤ msg.timestamp)
    (hm : c.state.Matured msg) :
    (∃ w events, c.state.execute token this msg .withdrawStake = .ok (w, events) ∧
      w.balance + ((c.state.contract.stakers msg.sender).stakedAmount -
        c.state.contract.unstakeFee msg.sender) = c.state.balance ∧
      .unstaked msg.sender ((c.state.contract.stakers msg.sender).stakedAmount -
        c.state.contract.unstakeFee msg.sender) ∈ events) ↔ c.state.Pays token this msg := by
  constructor
  · rintro ⟨w, events, hw, -, -⟩
    exact State.pays_of_execute hm.unstaking hw
  · intro hp
    exact State.execute_of_pays hp hm h.sound ht

theorem withdrawStake_pays_of_one_staker :
    ∃ (c : Staking.Chain (Address → ℕ)) (w : State (Address → ℕ)) (events : List Event),
      c.Reachable ledgerToken 255#160 ∧ c.state.Matured ⟨2#160, 604803, true, false⟩ ∧
      c.state.balance = 10 ∧
      c.state.execute ledgerToken 255#160 ⟨2#160, 604803, true, false⟩ .withdrawStake =
        .ok (w, events) ∧
      w.balance = 0 := by
  obtain ⟨c, hrun⟩ : ∃ c, (smallChain 1000).run ledgerToken 255#160
      [callAt 2#160 1 (.stake 10), callAt 2#160 3 .commenceUnstaking] = some c := ⟨_, rfl⟩
  have hc := reachable_smallChain hrun
  obtain ⟨htime, hstaked, hunstaking, hcooldown, htotal, hfee, hfree, hreward, hbalance⟩ :
      c.time ≤ 604803 ∧
      (c.state.contract.stakers 2#160).stakedAmount = 10 ∧
      (c.state.contract.stakers 2#160).unstakeStartTime ≠ 0 ∧
      (c.state.contract.stakers 2#160).unstakeStartTime + c.state.contract.unstakeCooldown ≤
        604803 ∧
      c.state.contract.totalRewardsAccrued = 0 ∧
      c.state.contract.unstakeFeePercentage = 0 ∧
      c.state.contract.reserved ≤ ledgerToken.balanceOf c.state.token 255#160 ∧
      (ledgerToken.transfer c.state.token 255#160 2#160
        (c.state.contract.stakers 2#160).earnedRewards).isSome = true ∧
      c.state.balance = 10 := by
    cases hrun
    decide +kernel
  have hm : c.state.Matured ⟨2#160, 604803, true, false⟩ :=
    ⟨by decide, hstaked.symm ▸ (by decide), hunstaking, hcooldown, rfl,
      fun hne => absurd htotal hne⟩
  have hp : c.state.Pays ledgerToken 255#160 ⟨2#160, 604803, true, false⟩ :=
    ⟨fun hne => absurd htotal hne, by rw [hfee]; exact zero_lt_WORD, hfree, .inr hreward⟩
  obtain ⟨w, events, hw, hpaid, -⟩ := (withdrawStake_pays_iff hc htime hm).2 hp
  refine ⟨c, w, events, hc, hm, hbalance, hw, ?_⟩
  simp only [RollupStaking.unstakeFee, hstaked, hfee, hbalance, Nat.mul_zero, Nat.zero_div] at hpaid
  omega

/-- Without any of the token, the stake stays where it is. -/
theorem withdrawStake_reverts_without_token : ∃ c : Staking.Chain (Address → ℕ),
    c.Reachable ledgerToken 255#160 ∧ c.time ≤ 604803 ∧
    c.state.Matured ⟨2#160, 604803, true, false⟩ ∧
    ∀ w events, c.state.execute ledgerToken 255#160 ⟨2#160, 604803, true, false⟩ .withdrawStake ≠
      .ok (w, events) := by
  obtain ⟨c, hrun⟩ : ∃ c, (smallChain 0).run ledgerToken 255#160
      [callAt 2#160 1 (.stake 10), callAt 2#160 3 .commenceUnstaking] = some c := ⟨_, rfl⟩
  have hc := reachable_smallChain hrun
  obtain ⟨htime, hstaked, hunstaking, hcooldown, htotal, hfail⟩ : c.time ≤ 604803 ∧
      0 < (c.state.contract.stakers 2#160).stakedAmount ∧
      (c.state.contract.stakers 2#160).unstakeStartTime ≠ 0 ∧
      (c.state.contract.stakers 2#160).unstakeStartTime + c.state.contract.unstakeCooldown ≤
        604803 ∧
      c.state.contract.totalRewardsAccrued = 0 ∧
      (c.state.execute ledgerToken 255#160 ⟨2#160, 604803, true, false⟩ .withdrawStake).isOk =
        false := by
    cases hrun
    decide +kernel
  refine ⟨c, hc, htime, ⟨by decide, hstaked, hunstaking, hcooldown, rfl,
    fun hne => absurd htotal hne⟩, fun w events h => ?_⟩
  rw [h] at hfail
  cases hfail

end Withdrawal

end Lasr
