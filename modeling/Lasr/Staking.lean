import Lasr.Token

/-!
# The staking contract

`RollupStaking` of `contracts/StakingContract/src/Staking.sol`. Ether is staked, and rewards
are paid in a token of their own.

A `uint256` is a natural number, and the operators of the language revert where the result
is not one (`add`, `mul`, `sub`). A transaction that reverts changes nothing. The token is any
`IERC20`; it makes no calls back, so `nonReentrant` never stops a call. Of a staker that is
paid in ether only matters whether it takes it.

A function is its body here, and `Function.updates` has its modifier `updateReward`. A call is
the modifier and then the body (`State.execute`), and returns the state and the events.
-/

set_option linter.unusedSectionVars false

namespace Lasr

namespace Staking

/-! ## Checked arithmetic -/

/-- A subtraction of the contract. -/
inductive Subtraction where
  /-- `lastApplicableTime() - lastUpdateTime`. -/
  | timeDifference
  /-- `rewardsPendingAccumulated + fullPendingRewards - remainderRewards`. -/
  | remainder
  /-- `rewardPerToken() - staker.debtInRewards`. -/
  | rewardDebt
  /-- `rewardsPendingAccumulated -= reward * 1e18`. -/
  | pendingRewards
  /-- `totalRewardsAccrued -= staker.stakedAmount`. -/
  | totalRewards
  /-- `totalStakedAmount -= amount`. -/
  | totalStaked
  /-- `stakingToken.balanceOf(address(this)) - totalStakedAmount - unstakeFeeAccumulated`. -/
  | freeBalance
  /-- `freeBalance - pendingRewards`. -/
  | remainingBalance
  /-- `amount - fee`. -/
  | fee
  deriving DecidableEq, Repr

/-- Why a transaction reverts. -/
inductive Revert where
  /-- A sum or a product is above the largest word. -/
  | overflow
  /-- A subtraction goes below zero. -/
  | underflow (site : Subtraction)
  | zeroStakeAmount
  | stakingNotStartedYet
  | stakingPeriodEnded
  /-- `onlyOwner` of `Ownable` does not let the sender through. -/
  | onlyOwner
  /-- `require` and `revert`, with the text. -/
  | reason (text : String)
  /-- The transfer of ether fails. -/
  | etherRefused
  deriving DecidableEq, Repr

/-- What a call returns, unless it reverts. -/
abbrev Sol (α : Type) := Except Revert α

/-- The words are below this. -/
def WORD : ℕ := 2 ^ 256

theorem zero_lt_WORD : 0 < WORD := by
  decide

/-- `a + b`. -/
def add (a b : ℕ) : Sol ℕ :=
  if a + b < WORD then .ok (a + b) else .error .overflow

/-- `a * b`. -/
def mul (a b : ℕ) : Sol ℕ :=
  if a * b < WORD then .ok (a * b) else .error .overflow

/-- `a - b`. -/
def sub (site : Subtraction) (a b : ℕ) : Sol ℕ :=
  if b ≤ a then .ok (a - b) else .error (.underflow site)

/-- `require`. -/
def require (p : Prop) [Decidable p] (e : Revert) : Sol Unit :=
  if p then .ok () else .error e

@[simp] theorem add_eq_ok_iff {a b c : ℕ} : add a b = .ok c ↔ a + b < WORD ∧ a + b = c := by
  unfold add
  split_ifs with h <;> simp [h]

@[simp] theorem mul_eq_ok_iff {a b c : ℕ} : mul a b = .ok c ↔ a * b < WORD ∧ a * b = c := by
  unfold mul
  split_ifs with h <;> simp [h]

@[simp] theorem sub_eq_ok_iff {site : Subtraction} {a b c : ℕ} :
    sub site a b = .ok c ↔ b ≤ a ∧ a - b = c := by
  unfold sub
  split_ifs with h <;> simp [h]

@[simp] theorem require_eq_ok_iff {p : Prop} [Decidable p] {e : Revert} {u : Unit} :
    require p e = .ok u ↔ p := by
  unfold require
  split_ifs with h <;> simp [h]

@[simp] theorem add_eq_error_iff {a b : ℕ} {e : Revert} :
    add a b = .error e ↔ ¬a + b < WORD ∧ .overflow = e := by
  unfold add
  split_ifs with h <;> simp [h]

@[simp] theorem mul_eq_error_iff {a b : ℕ} {e : Revert} :
    mul a b = .error e ↔ ¬a * b < WORD ∧ .overflow = e := by
  unfold mul
  split_ifs with h <;> simp [h]

@[simp] theorem sub_eq_error_iff {site : Subtraction} {a b : ℕ} {e : Revert} :
    sub site a b = .error e ↔ ¬b ≤ a ∧ .underflow site = e := by
  unfold sub
  split_ifs with h <;> simp [h]

@[simp] theorem require_eq_error_iff {p : Prop} [Decidable p] {e e' : Revert} :
    require p e' = .error e ↔ ¬p ∧ e' = e := by
  unfold require
  split_ifs with h <;> simp [h]

/-! ## The storage -/

/-- `1e18`. -/
def SCALE : ℕ := 10 ^ 18

/-- `FEE_CAP`. -/
def FEE_CAP : ℕ := 200

/-- `FEE_PRECISION`. -/
def FEE_PRECISION : ℕ := 10000

/-- `COOLDOWN_DURATION`. -/
def COOLDOWN_DURATION : ℕ := 15 * 24 * 60 * 60

/-- `Staker`. -/
structure Staker where
  stakedAmount : ℕ
  debtInRewards : ℕ
  earnedRewards : ℕ
  unstakeStartTime : ℕ
  deriving DecidableEq, Repr

end Staking

open Staking

/-- `RollupStaking`. -/
structure RollupStaking where
  totalStakedAmount : ℕ
  totalRewardsAccrued : ℕ
  rewardRatePerBlock : ℕ
  lastUpdateTime : ℕ
  rewardPerTokenAccrued : ℕ
  unstakeCooldown : ℕ
  unstakeFeePercentage : ℕ
  launchTime : ℕ
  closureTime : ℕ
  unstakeFeeAccumulated : ℕ
  rewardsPendingAccumulated : ℕ
  stakers : Address → Staker

namespace RollupStaking

/-- The constructor, but for the one of `Ownable`. -/
def new (rewardRatePerBlock launchTime duration : ℕ) : Sol RollupStaking := do
  let closureTime ← add launchTime duration
  return {
    totalStakedAmount := 0
    totalRewardsAccrued := 0
    rewardRatePerBlock := rewardRatePerBlock
    lastUpdateTime := 0
    rewardPerTokenAccrued := 0
    unstakeCooldown := 7 * 24 * 60 * 60
    unstakeFeePercentage := 0
    launchTime := launchTime
    closureTime := closureTime
    unstakeFeeAccumulated := 0
    rewardsPendingAccumulated := 0
    stakers := fun _ => ⟨0, 0, 0, 0⟩ }

/-- Write an entry of `stakers`. -/
def setStaker (self : RollupStaking) (account : Address) (staker : Staker) : RollupStaking :=
  { self with stakers := Function.update self.stakers account staker }

/-- `lastApplicableTime`. -/
def lastApplicableTime (self : RollupStaking) (blockTimestamp : ℕ) : ℕ :=
  if blockTimestamp < self.closureTime then blockTimestamp else self.closureTime

/-- `calculateTimeDifference`. -/
def calculateTimeDifference (self : RollupStaking) (blockTimestamp : ℕ) : Sol ℕ :=
  sub .timeDifference (self.lastApplicableTime blockTimestamp) self.lastUpdateTime

/-- `calculateFullPendingRewards`. -/
def calculateFullPendingRewards (self : RollupStaking) (blockTimestamp : ℕ) : Sol ℕ := do
  mul (← mul (← self.calculateTimeDifference blockTimestamp) self.rewardRatePerBlock) SCALE

/-- `calculatePendingRewards`. -/
def calculatePendingRewards (self : RollupStaking) (blockTimestamp : ℕ) : Sol ℕ := do
  if self.totalRewardsAccrued = 0 then return self.rewardsPendingAccumulated
  let fullPendingRewards ← self.calculateFullPendingRewards blockTimestamp
  let remainderRewards := fullPendingRewards % self.totalRewardsAccrued
  sub .remainder (← add self.rewardsPendingAccumulated fullPendingRewards) remainderRewards

/-- `rewardPerToken`. -/
def rewardPerToken (self : RollupStaking) (blockTimestamp : ℕ) : Sol ℕ := do
  if self.totalRewardsAccrued = 0 then return self.rewardPerTokenAccrued
  let timeSinceLastUpdate ←
    sub .timeDifference (self.lastApplicableTime blockTimestamp) self.lastUpdateTime
  let rewards ← mul (← mul timeSinceLastUpdate self.rewardRatePerBlock) SCALE
  add self.rewardPerTokenAccrued (rewards / self.totalRewardsAccrued)

/-- `calculateEarnedRewards`. -/
def calculateEarnedRewards (self : RollupStaking) (blockTimestamp : ℕ) (account : Address) :
    Sol ℕ := do
  let staker := self.stakers account
  if staker.unstakeStartTime ≠ 0 then return staker.earnedRewards
  let sinceDebt ← sub .rewardDebt (← self.rewardPerToken blockTimestamp) staker.debtInRewards
  add ((← mul staker.stakedAmount sinceDebt) / SCALE) staker.earnedRewards

/-- `updateReward`. -/
def updateReward (self : RollupStaking) (blockTimestamp : ℕ) (account : Address) :
    Sol RollupStaking := do
  let self := { self with rewardPerTokenAccrued := ← self.rewardPerToken blockTimestamp }
  let self :=
    { self with rewardsPendingAccumulated := ← self.calculatePendingRewards blockTimestamp }
  let self := { self with lastUpdateTime := self.lastApplicableTime blockTimestamp }
  let staker := self.stakers account
  if staker.unstakeStartTime = 0 then
    let earnedRewards ← self.calculateEarnedRewards blockTimestamp account
    return self.setStaker account
      { staker with earnedRewards := earnedRewards, debtInRewards := self.rewardPerTokenAccrued }
  else return self

/-- In `withdrawStake`, the reset of the reward if enough is available for it. -/
def resetReward (self : RollupStaking) (account : Address) (reward availableForRewards : ℕ) :
    Sol RollupStaking :=
  if 0 < reward ∧ reward ≤ availableForRewards then do
    let scaled ← mul reward SCALE
    let self :=
      if scaled ≤ self.rewardsPendingAccumulated then
        { self with rewardsPendingAccumulated := self.rewardsPendingAccumulated - scaled }
      else self
    return self.setStaker account { self.stakers account with earnedRewards := 0 }
  else return self

end RollupStaking

namespace Staking

/-! ## The functions -/

/-- `IERC20`, over the states of a token. A transfer that returns `false` or reverts is `none`,
since the contract requires that it succeeds. -/
structure IERC20 (σ : Type) where
  balanceOf : σ → Address → ℕ
  transfer : σ → Address → Address → ℕ → Option σ

/-- The events of the contract. -/
inductive Event where
  | staked (user : Address) (amount : ℕ)
  | rewardPaid (user : Address) (reward : ℕ)
  | unstakeFeePercentageUpdated (newFeePercentage : ℕ)
  | unstakeCooldownUpdated (newCooldown : ℕ)
  | unstakeStarted (user : Address)
  | unstaked (user : Address) (amount : ℕ)
  deriving DecidableEq, Repr

/-- The sender and the block of a call, whether the sender takes ether, and whether `onlyOwner`
lets it through. `Ownable` comes from outside : it keeps the owner in a storage of its own, which
may change between any two calls. -/
structure Call where
  sender : Address
  timestamp : ℕ
  takesEther : Bool
  isOwner : Bool

/-- `onlyOwner`. -/
def Call.onlyOwner (msg : Call) : Sol Unit :=
  require (msg.isOwner = true) .onlyOwner

/-- The contract with its ether, and the token. -/
structure State (σ : Type) where
  contract : RollupStaking
  balance : ℕ
  token : σ

section Functions

variable {σ : Type} (token : IERC20 σ) (this : Address)

namespace State

/-- `stake`, with the ether that comes with it. -/
def stake (self : State σ) (msg : Call) (value : ℕ) : Sol (State σ × List Event) := do
  let s := self.contract
  -- a balance is a word, whoever sends what
  let balance ← add self.balance value
  require (value ≠ 0) .zeroStakeAmount
  require (s.launchTime ≤ msg.timestamp) .stakingNotStartedYet
  require (msg.timestamp ≤ s.closureTime) .stakingPeriodEnded
  let staker := s.stakers msg.sender
  require (staker.unstakeStartTime = 0) (.reason "Cannot stake after initiating unstake")
  let totalStakedAmount ← add s.totalStakedAmount value
  let totalRewardsAccrued ← add s.totalRewardsAccrued value
  let stakedAmount ← add staker.stakedAmount value
  let s := { s with
    totalStakedAmount := totalStakedAmount
    totalRewardsAccrued := totalRewardsAccrued }
  let s := s.setStaker msg.sender { staker with stakedAmount := stakedAmount }
  return ({ self with contract := s, balance := balance }, [.staked msg.sender value])

/-- `getBalance`. -/
def getBalance (self : State σ) : Sol ℕ := do
  let rest ← sub .freeBalance (token.balanceOf self.token this) self.contract.totalStakedAmount
  sub .freeBalance rest self.contract.unstakeFeeAccumulated

/-- `require(stakingToken.transfer(to, amount), text)`. -/
def transferToken (self : State σ) («to» : Address) (amount : ℕ) (text : String) : Sol σ :=
  match token.transfer self.token this «to» amount with
  | some next => .ok next
  | none => .error (.reason text)

/-- `claimReward`. -/
def claimReward (self : State σ) (msg : Call) : Sol (State σ × List Event) := do
  let s := self.contract
  let staker := s.stakers msg.sender
  let reward := staker.earnedRewards
  require (reward ≠ 0) (.reason "Insufficient rewards or funds")
  let freeBalance ← self.getBalance token this
  require (reward ≤ freeBalance) (.reason "Insufficient rewards or funds")
  let pending ← sub .pendingRewards s.rewardsPendingAccumulated (← mul reward SCALE)
  let s := { s with rewardsPendingAccumulated := pending }
  let s := s.setStaker msg.sender { staker with earnedRewards := 0 }
  let next ← self.transferToken token this msg.sender reward "Reward transfer failed"
  return ({ self with contract := s, token := next }, [.rewardPaid msg.sender reward])

/-- `withdrawRemainingTokens`. -/
def withdrawRemainingTokens (self : State σ) (msg : Call) : Sol (State σ × List Event) := do
  let s := self.contract
  msg.onlyOwner
  let freeBalance ← self.getBalance token this
  let pendingRewards := (← s.calculatePendingRewards msg.timestamp) / SCALE
  require (¬(msg.timestamp ≤ s.closureTime ∨ freeBalance ≤ pendingRewards))
    (.reason "Withdrawal not allowed yet or insufficient funds")
  let remainingBalance ← sub .remainingBalance freeBalance pendingRewards
  let next ← self.transferToken token this msg.sender remainingBalance "Token withdrawal failed"
  return ({ self with token := next }, [])

/-- `commenceUnstaking`. -/
def commenceUnstaking (self : State σ) (msg : Call) : Sol (State σ × List Event) := do
  let s := self.contract
  let staker := s.stakers msg.sender
  require (0 < staker.stakedAmount) (.reason "You haven't staked any ETH yet.")
  require (staker.unstakeStartTime = 0) (.reason "Unstake process already initiated.")
  let s := s.setStaker msg.sender { staker with unstakeStartTime := msg.timestamp }
  let totalRewardsAccrued ← sub .totalRewards s.totalRewardsAccrued staker.stakedAmount
  let s := { s with totalRewardsAccrued := totalRewardsAccrued }
  return ({ self with contract := s }, [.unstakeStarted msg.sender])

/-- `setUnstakeFeePercent`. -/
def setUnstakeFeePercent (self : State σ) (msg : Call) (fee : ℕ) :
    Sol (State σ × List Event) := do
  msg.onlyOwner
  require (fee ≤ FEE_CAP) (.reason "Unstake fee exceeds 5%, maximum allowed")
  let s := { self.contract with unstakeFeePercentage := fee }
  return ({ self with contract := s }, [.unstakeFeePercentageUpdated fee])

/-- `setUnstakeTime`. -/
def setUnstakeTime (self : State σ) (msg : Call) (coolDownTime : ℕ) :
    Sol (State σ × List Event) := do
  msg.onlyOwner
  require (coolDownTime ≤ COOLDOWN_DURATION)
    (.reason "Cool Down time must be between 0 to 20 days")
  let s := { self.contract with unstakeCooldown := coolDownTime }
  return ({ self with contract := s }, [.unstakeCooldownUpdated coolDownTime])

/-- `payable(to).transfer(amount)`. -/
def transferEther (self : State σ) (msg : Call) (amount : ℕ) : Sol ℕ := do
  require (msg.takesEther = true ∧ amount ≤ self.balance) .etherRefused
  return self.balance - amount

/-- In `withdrawStake`, the payment of the reward. -/
def payReward (self : State σ) (msg : Call) (reward : ℕ) : Sol (σ × List Event) :=
  if 0 < reward then do
    let next ← self.transferToken token this msg.sender reward "Rewards pay failed"
    return (next, [.rewardPaid msg.sender reward])
  else return (self.token, [])

/-- `withdrawStake`. The reward is paid whether or not the entry was reset. -/
def withdrawStake (self : State σ) (msg : Call) : Sol (State σ × List Event) := do
  let s := self.contract
  let staker := s.stakers msg.sender
  require (0 < staker.stakedAmount) (.reason "No eth staked")
  require (0 < staker.unstakeStartTime) (.reason "Unstake not started")
  let finished ← add staker.unstakeStartTime s.unstakeCooldown
  require (finished ≤ msg.timestamp) (.reason "Cool down yet not finished")
  let amount := staker.stakedAmount
  let reward := staker.earnedRewards
  let fee := (← mul amount s.unstakeFeePercentage) / FEE_PRECISION
  let amountAfterFee ← sub .fee amount fee
  let availableForRewards ← self.getBalance token this
  let unstakeFeeAccumulated ← add s.unstakeFeeAccumulated fee
  let totalStakedAmount ← sub .totalStaked s.totalStakedAmount amount
  let s := { s with
    unstakeFeeAccumulated := unstakeFeeAccumulated
    totalStakedAmount := totalStakedAmount }
  let s := s.setStaker msg.sender
    { staker with stakedAmount := 0, debtInRewards := 0, unstakeStartTime := 0 }
  let totalAmount := amountAfterFee
  let s ← s.resetReward msg.sender reward availableForRewards
  let (next, paid) ← self.payReward token this msg reward
  let balance ← self.transferEther msg totalAmount
  return ({ self with contract := s, balance := balance, token := next },
    paid ++ [.unstaked msg.sender totalAmount])

end State

/-- The functions that change the state, with their arguments. -/
inductive Function where
  | stake (value : ℕ)
  | claimReward
  | withdrawRemainingTokens
  | commenceUnstaking
  | setUnstakeFeePercent (fee : ℕ)
  | setUnstakeTime (coolDownTime : ℕ)
  | withdrawStake
  deriving DecidableEq, Repr

/-- The account for which the modifier of a function updates the rewards, if it has one. -/
def Function.updates (msg : Call) : Function → Option Address
  | .stake _ => some msg.sender
  | .claimReward => some msg.sender
  | .withdrawRemainingTokens => some 0#160
  | .commenceUnstaking => some msg.sender
  | .withdrawStake => some msg.sender
  | _ => none

/-- `updateReward(account)`. -/
def State.updateReward (self : State σ) (msg : Call) (account : Address) : Sol (State σ) := do
  return { self with contract := ← self.contract.updateReward msg.timestamp account }

/-- The body of a function. -/
def State.body (self : State σ) (msg : Call) : Function → Sol (State σ × List Event)
  | .stake value => self.stake msg value
  | .claimReward => self.claimReward token this msg
  | .withdrawRemainingTokens => self.withdrawRemainingTokens token this msg
  | .commenceUnstaking => self.commenceUnstaking msg
  | .setUnstakeFeePercent fee => self.setUnstakeFeePercent msg fee
  | .setUnstakeTime coolDownTime => self.setUnstakeTime msg coolDownTime
  | .withdrawStake => self.withdrawStake token this msg

/-- A call : the modifier, and then the body. -/
def State.execute (self : State σ) (msg : Call) (f : Function) : Sol (State σ × List Event) :=
  match f.updates msg with
  | some account => do (← self.updateReward msg account).body token this msg f
  | none => self.body token this msg f

end Functions

end Staking

end Lasr
