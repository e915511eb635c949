import Lasr.StakingSolvency

/-!
# What the staking contract pays

Along a run an account is paid rewards (`Staking.Chain.paid`), and updates add to its reward
(`Staking.Chain.added`). The two and what it has at the end balance, but for one thing
(`Staking.Chain.run_balances`) : a withdrawal of a stake pays the reward and resets it under
different conditions, and where the balance of the token is short of the reward besides the
stakes and the fees, it pays and keeps it. So a reward is paid once if and only if the balance
covers it whenever the account withdraws its stake (`reward_paid_once_iff`).
-/

set_option linter.unusedSectionVars false

namespace Lasr

open Staking

namespace RollupStaking

variable {s : RollupStaking} {t : ℕ} {a b : Address}

theorem changed_staker (st : Staker) (staked active fees pending : ℕ) :
    (s.changed a st staked active fees pending).stakers a = st :=
  Function.update_self _ _ _

theorem earned_le_updated :
    (s.stakers a).earnedRewards ≤ ((s.updated t b).stakers a).earnedRewards := by
  rcases eq_or_ne a b with rfl | hne
  · rw [updated_stakers_self, Staker.settled_earnedRewards]
    exact Nat.le_add_left _ _
  · rw [updated_stakers_of_ne hne]

end RollupStaking

namespace Staking

/-! ## Sums over a run -/

section Sums

variable {σ : Type} (token : IERC20 σ) (this : Address)

/-- The sum over a run of what each action counts for, in the state it finds. -/
def Chain.sum (g : Chain σ → Action σ → ℕ) : Chain σ → List (Action σ) → ℕ
  | _, [] => 0
  | self, action :: actions =>
    g self action + (self.step token this action).elim 0 fun c => Chain.sum g c actions

variable {token this} {g g' : Chain σ → Action σ → ℕ} {c c' : Chain σ}
  {actions : List (Action σ)}

theorem Chain.sum_add : c.sum token this (fun c action => g c action + g' c action) actions =
    c.sum token this g actions + c.sum token this g' actions := by
  induction actions generalizing c with
  | nil => rfl
  | cons action actions ih =>
    cases hstep : c.step token this action with
    | none => simp [Chain.sum, hstep]
    | some c₁ =>
      simp only [Chain.sum, hstep, Option.elim_some, ih]
      omega

/-- What each action adds to the one side and to the other, a run does. -/
theorem Chain.sum_add_eq {v : Chain σ → ℕ}
    (hstep : ∀ c action c', c.step token this action = some c' →
      g c action + v c' = v c + g' c action)
    (h : c.run token this actions = some c') :
    c.sum token this g actions + v c' = v c + c.sum token this g' actions := by
  induction actions generalizing c with
  | nil =>
    cases h
    simp [Chain.sum]
  | cons action actions ih =>
    obtain ⟨c₁, hc₁, h⟩ := Option.bind_eq_some_iff.1 h
    have hrest := ih h
    have hfirst := hstep c action c₁ hc₁
    simp only [Chain.sum, hc₁, Option.elim_some]
    omega

/-- A sum is zero if and only if each action counts for nothing. -/
theorem Chain.sum_eq_zero_iff (h : c.run token this actions = some c') :
    c.sum token this g actions = 0 ↔ ∀ pre action post c₁, actions = pre ++ action :: post →
      c.run token this pre = some c₁ → g c₁ action = 0 := by
  induction actions generalizing c with
  | nil => simp [Chain.sum]
  | cons action actions ih =>
    obtain ⟨c₁, hc₁, h⟩ := Option.bind_eq_some_iff.1 h
    simp only [Chain.sum, hc₁, Option.elim_some, Nat.add_eq_zero_iff, ih h]
    constructor
    · rintro ⟨hfirst, hrest⟩ pre action' post c₂ hsplit hpre
      cases pre with
      | nil =>
        cases hsplit
        cases hpre
        exact hfirst
      | cons _ pre =>
        cases hsplit
        rw [Chain.run, hc₁] at hpre
        exact hrest pre action' post c₂ rfl hpre
    · intro hall
      refine ⟨hall [] action actions c rfl rfl, fun pre action' post c₂ hsplit hpre => ?_⟩
      refine hall (action :: pre) action' post c₂ (by rw [hsplit]; rfl) ?_
      rw [Chain.run, hc₁]
      exact hpre

end Sums

/-! ## Payments -/

/-- What an event pays to an account. -/
def Event.paidTo (a : Address) : Event → ℕ
  | .rewardPaid user reward => if user = a then reward else 0
  | _ => 0

section Payments

variable {σ : Type} (token : IERC20 σ) (this : Address) (a : Address)

/-- What an action adds to the reward of `a`, with the update of its modifier. A call that
reverts adds nothing. -/
def Chain.added (self : Chain σ) : Action σ → ℕ
  | .call msg f =>
    match self.state.execute token this msg f, f.updates msg with
    | .ok _, some account =>
      match self.state.updateReward msg account with
      | .ok w =>
        (w.contract.stakers a).earnedRewards - (self.state.contract.stakers a).earnedRewards
      | .error _ => 0
    | _, _ => 0
  | .token _ => 0

/-- What an action pays to `a`. -/
def Chain.paid (self : Chain σ) : Action σ → ℕ
  | .call msg f =>
    match self.state.execute token this msg f with
    | .ok (_, events) => (events.map (Event.paidTo a)).sum
    | .error _ => 0
  | .token _ => 0

/-- What `a` is paid and keeps in an action. -/
def Chain.kept (self : Chain σ) : Action σ → ℕ
  | .call msg .withdrawStake =>
    if msg.sender = a ∧ (self.state.execute token this msg .withdrawStake).isOk = true ∧
        self.state.covers token this a = false
    then (self.state.contract.stakers a).earnedRewards else 0
  | _ => 0

end Payments

section Balances

variable {σ : Type} {token : IERC20 σ} {this : Address} {w w' : State σ} {msg : Call}
  {f : Function} {events : List Event} {c c' : Chain σ} {a : Address}

theorem Moves.paidTo_of_ne (h : Moves token this w msg f w' events) (hne : msg.sender ≠ a) :
    (events.map (Event.paidTo a)).sum = 0 := by
  cases h
  case withdrawStake =>
    unfold State.withdrawalEvents
    split <;> simp [Event.paidTo, hne]
  all_goals simp [Event.paidTo, hne]

/-- The sender is paid its reward and has it no longer, but for a withdrawal that is not
covered. -/
theorem Moves.paidTo_sender (h : Moves token this w msg f w' events) :
    (events.map (Event.paidTo msg.sender)).sum +
        (w'.contract.stakers msg.sender).earnedRewards =
      (w.contract.stakers msg.sender).earnedRewards +
        if f = .withdrawStake ∧ w.covers token this msg.sender = false
        then (w.contract.stakers msg.sender).earnedRewards else 0 := by
  cases h with
  | stake => simp [Event.paidTo, RollupStaking.withStake, RollupStaking.changed_staker]
  | claimReward => simp [Event.paidTo, RollupStaking.withoutReward, RollupStaking.changed_staker]
  | withdrawRemainingTokens => simp
  | commenceUnstaking =>
    simp [Event.paidTo, RollupStaking.withUnstaking, RollupStaking.changed_staker]
  | setUnstakeFeePercent => simp [Event.paidTo]
  | setUnstakeTime => simp [Event.paidTo]
  | withdrawStake =>
    have hpaid : ((w.withdrawalEvents msg).map (Event.paidTo msg.sender)).sum =
        (w.contract.stakers msg.sender).earnedRewards := by
      unfold State.withdrawalEvents
      split
      · simp [Event.paidTo]
      · next hzero =>
        simp only [List.nil_append, List.map_cons, List.map_nil, List.sum_cons, List.sum_nil,
          Event.paidTo]
        omega
    rw [hpaid]
    cases hcovers : w.covers token this msg.sender
    · simp [State.withdrawn, hcovers, RollupStaking.withoutStake, RollupStaking.changed_staker]
    · simp [State.withdrawn, hcovers, RollupStaking.withoutStake, RollupStaking.changed_staker]

/-- What a call that goes through adds to the reward. -/
theorem Chain.added_eq (h : c.state.execute token this msg f = .ok (w', events)) :
    (c.state.contract.stakers a).earnedRewards + c.added token this a (.call msg f) =
      ((c.state.prepared msg f).contract.stakers a).earnedRewards := by
  have hfits := (State.execute_eq_ok_iff.1 h).1
  unfold Chain.added State.prepared
  simp only [h]
  cases hupdates : f.updates msg with
  | none => rfl
  | some account =>
    have hupdate : c.state.updateReward msg account =
        .ok { c.state with contract := c.state.contract.updated msg.timestamp account } :=
      Except.bind_eq_ok_iff.2 ⟨_, RollupStaking.updateReward_eq_ok_iff.2
        ⟨hfits account hupdates, rfl⟩, rfl⟩
    simp only [hupdate]
    exact Nat.add_sub_cancel' RollupStaking.earned_le_updated

/-- A withdrawal finds its account as the update left it. -/
theorem Chain.kept_eq (h : c.state.execute token this msg f = .ok (w', events)) :
    c.kept token this a (.call msg f) =
      if f = .withdrawStake ∧ msg.sender = a ∧
        (c.state.prepared msg f).covers token this a = false
      then ((c.state.prepared msg f).contract.stakers a).earnedRewards else 0 := by
  by_cases hf : f = .withdrawStake
  · subst hf
    by_cases hsender : msg.sender = a
    · subst hsender
      obtain ⟨next, hw, -, -⟩ := State.withdrawStake_eq_ok_iff.1 (State.execute_eq_ok_iff.1 h).2
      have hunstaking : (c.state.contract.stakers msg.sender).unstakeStartTime ≠ 0 := by
        have hsame : ((c.state.prepared msg .withdrawStake).contract.stakers
            msg.sender).unstakeStartTime = (c.state.contract.stakers msg.sender).unstakeStartTime :=
          State.prepared_unstakeStartTime
        rw [← hsame]
        exact hw.unstaking.ne'
      have hstaker := State.prepared_staker hunstaking
      have hcovers : (c.state.prepared msg .withdrawStake).covers token this msg.sender =
          c.state.covers token this msg.sender := by
        unfold State.covers
        rw [hstaker]
        change decide ((c.state.contract.updated _ _).reserved + _ ≤ _) = _
        rw [RollupStaking.updated_reserved]
        rfl
      rw [hcovers, hstaker]
      simp [Chain.kept, h, Except.isOk, Except.toBool]
    · simp [Chain.kept, hsender]
  · simp only [hf, false_and, if_false]
    cases f <;> first | rfl | exact absurd rfl hf

/-- One action balances. -/
theorem Chain.step_balances {action : Action σ} (h : c.step token this action = some c') :
    c.paid token this a action + (c'.state.contract.stakers a).earnedRewards =
      (c.state.contract.stakers a).earnedRewards +
        (c.added token this a action + c.kept token this a action) := by
  rcases Chain.step_cases h with ⟨next, rfl, rfl⟩ | ⟨msg, f, rfl, -, -, -, rfl⟩
  · simp [Chain.paid, Chain.added, Chain.kept]
  · rcases c.state.after_cases token this msg f with ⟨e, he, heq⟩ | ⟨events, hok⟩
    · -- a call that reverts counts for nothing
      have hkept : c.kept token this a (.call msg f) = 0 := by
        cases f <;> simp [Chain.kept, he, Except.isOk, Except.toBool]
      simp [Chain.paid, Chain.added, hkept, he, heq]
    · have hadded := Chain.added_eq (a := a) hok
      have hkept := Chain.kept_eq (a := a) hok
      obtain ⟨-, hmoves⟩ := State.execute_moves hok
      have hpaid : c.paid token this a (.call msg f) = (events.map (Event.paidTo a)).sum := by
        simp only [Chain.paid, hok]
      rw [← Nat.add_assoc, hadded, hpaid, hkept]
      rcases eq_or_ne msg.sender a with rfl | hne
      · simpa using hmoves.paidTo_sender
      · have hstaker := hmoves.stakers_of_ne hne.symm
        simp [hmoves.paidTo_of_ne hne, hstaker, hne]

/-- A run balances. -/
theorem Chain.run_balances {actions : List (Action σ)} (h : c.run token this actions = some c') :
    c.sum token this (Chain.paid token this a) actions +
        (c'.state.contract.stakers a).earnedRewards =
      (c.state.contract.stakers a).earnedRewards +
        (c.sum token this (Chain.added token this a) actions +
          c.sum token this (Chain.kept token this a) actions) := by
  rw [← Chain.sum_add]
  exact Chain.sum_add_eq (v := fun c => (c.state.contract.stakers a).earnedRewards)
    (fun c action c' hstep => Chain.step_balances hstep) h

/-- A withdrawal keeps nothing if and only if the balance covers the reward. -/
theorem Chain.kept_eq_zero_iff : c.kept token this a (.call msg .withdrawStake) = 0 ↔
    (msg.sender = a → (c.state.execute token this msg .withdrawStake).isOk = true →
      c.state.covers token this a = true) := by
  constructor
  · rintro hzero rfl hok
    by_contra hcovers
    rw [Bool.not_eq_true] at hcovers
    cases hexecute : c.state.execute token this msg .withdrawStake with
    | error e =>
      rw [hexecute] at hok
      cases hok
    | ok r =>
      -- with nothing to keep, the stakes and the fees are all it takes
      have hearned : (c.state.contract.stakers msg.sender).earnedRewards = 0 := by
        simpa [Chain.kept, hok, hcovers] using hzero
      obtain ⟨next, hw, -, -⟩ :=
        State.withdrawStake_eq_ok_iff.1 (State.execute_eq_ok_iff.1 hexecute).2
      have hfree := RollupStaking.updated_reserved.symm.trans_le hw.free
      simp only [State.covers, hearned, decide_eq_false_iff_not] at hcovers
      exact hcovers hfree
  · intro h
    simp only [Chain.kept]
    split_ifs with hcond
    · rw [h hcond.1 hcond.2.1] at hcond
      cases hcond.2.2
    · rfl

theorem Chain.deploy_staker {rate launch duration time : ℕ} {start : σ}
    (h : Chain.deploy rate launch duration start time = .ok c) :
    c.state.contract.stakers a = ⟨0, 0, 0, 0⟩ := by
  obtain ⟨s, hs, h⟩ := Except.bind_eq_ok_iff.1 h
  cases h
  obtain ⟨closureTime, -, hs⟩ := Except.bind_eq_ok_iff.1 hs
  cases hs
  rfl

end Balances

end Staking

section Rewards

variable {σ : Type} {token : IERC20 σ} {this : Address} {c c₀ : Staking.Chain σ}
  {actions : List (Action σ)}

/-- What an account was paid and has is what the updates added to it, if and only if, whenever
it withdrew its stake, the balance of the token had its reward besides the stakes and the
fees. -/
theorem reward_paid_once_iff {rate launch duration time : ℕ} {start : σ}
    (hdeploy : Staking.Chain.deploy rate launch duration start time = .ok c₀)
    (hrun : c₀.run token this actions = some c) (a : Address) :
    c₀.sum token this (Staking.Chain.paid token this a) actions +
        (c.state.contract.stakers a).earnedRewards =
      c₀.sum token this (Staking.Chain.added token this a) actions ↔
    ∀ pre msg post c₁, actions = pre ++ .call msg .withdrawStake :: post →
      c₀.run token this pre = some c₁ → msg.sender = a →
      (c₁.state.execute token this msg .withdrawStake).isOk = true →
      c₁.state.covers token this a = true := by
  have hstart : (c₀.state.contract.stakers a).earnedRewards = 0 := by
    rw [Staking.Chain.deploy_staker hdeploy]
  have hkept : c₀.sum token this (Staking.Chain.kept token this a) actions = 0 ↔
      ∀ pre msg post c₁, actions = pre ++ .call msg .withdrawStake :: post →
        c₀.run token this pre = some c₁ → msg.sender = a →
        (c₁.state.execute token this msg .withdrawStake).isOk = true →
        c₁.state.covers token this a = true := by
    rw [Staking.Chain.sum_eq_zero_iff hrun]
    constructor
    · intro h pre msg post c₁ hsplit hpre
      exact Staking.Chain.kept_eq_zero_iff.1 (h pre _ post c₁ hsplit hpre)
    · intro h pre action post c₁ hsplit hpre
      cases action with
      | token next => rfl
      | call msg f =>
        by_cases hf : f = .withdrawStake
        · subst hf
          exact Staking.Chain.kept_eq_zero_iff.2 (h pre msg post c₁ hsplit hpre)
        · cases f <;> first | rfl | exact absurd rfl hf
  rw [Staking.Chain.run_balances hrun, hstart, ← hkept]
  omega

theorem reward_paid_once_of_one_staker : ∃ c c' : Staking.Chain (Address → ℕ),
    (smallChain 1000).run ledgerToken 255#160
      [callAt 2#160 1 (.stake 10), callAt 2#160 11 .commenceUnstaking] = some c ∧
    (smallChain 1000).run ledgerToken 255#160 [callAt 2#160 1 (.stake 10),
      callAt 2#160 11 .commenceUnstaking, callAt 2#160 604811 .withdrawStake] = some c' ∧
    (c.state.contract.stakers 2#160).earnedRewards = 10 ∧
    (c'.state.contract.stakers 2#160).earnedRewards = 0 ∧
    c.state.covers ledgerToken 255#160 2#160 = true := by
  obtain ⟨c, hrun⟩ : ∃ c, (smallChain 1000).run ledgerToken 255#160
      [callAt 2#160 1 (.stake 10), callAt 2#160 11 .commenceUnstaking] = some c := ⟨_, rfl⟩
  obtain ⟨c', hrun'⟩ : ∃ c', (smallChain 1000).run ledgerToken 255#160 [callAt 2#160 1 (.stake 10),
      callAt 2#160 11 .commenceUnstaking, callAt 2#160 604811 .withdrawStake] = some c' :=
    ⟨_, rfl⟩
  have hlast := hrun'
  have hfirst := hrun
  obtain ⟨hearned, hearned', hok, hpaid⟩ :
      (c.state.contract.stakers 2#160).earnedRewards = 10 ∧
      (c'.state.contract.stakers 2#160).earnedRewards = 0 ∧
      (c.state.execute ledgerToken 255#160 ⟨2#160, 604811, true, false⟩ .withdrawStake).isOk =
        true ∧
      (smallChain 1000).sum ledgerToken 255#160 (Staking.Chain.paid ledgerToken 255#160 2#160)
          [callAt 2#160 1 (.stake 10), callAt 2#160 11 .commenceUnstaking,
            callAt 2#160 604811 .withdrawStake] +
          (c'.state.contract.stakers 2#160).earnedRewards =
        (smallChain 1000).sum ledgerToken 255#160 (Staking.Chain.added ledgerToken 255#160 2#160)
          [callAt 2#160 1 (.stake 10), callAt 2#160 11 .commenceUnstaking,
            callAt 2#160 604811 .withdrawStake] := by
    cases hrun
    cases hrun'
    decide +kernel
  have hdeploy : Staking.Chain.deploy 1 1 100
      (fun a : Address => if a = 255#160 then 1000 else 0) 1 = .ok (smallChain 1000) := rfl
  exact ⟨c, c', hfirst, hlast, hearned, hearned',
    (reward_paid_once_iff hdeploy hlast 2#160).1 hpaid _ _ [] c rfl hfirst rfl hok⟩

/-- With 15 of the token, a stake of 10 and a reward of 10, the reward is paid and stays. -/
theorem reward_paid_and_kept : ∃ (c₀ c : Staking.Chain (Address → ℕ)) (actions : List (Action _)),
    Staking.Chain.deploy 1 1 100 (fun a : Address => if a = 255#160 then 15 else 0) 1 =
      .ok c₀ ∧
    c₀.run ledgerToken 255#160 actions = some c ∧
    c₀.sum ledgerToken 255#160 (Staking.Chain.paid ledgerToken 255#160 2#160) actions = 10 ∧
    (c.state.contract.stakers 2#160).earnedRewards = 10 ∧
    c₀.sum ledgerToken 255#160 (Staking.Chain.added ledgerToken 255#160 2#160) actions = 10 := by
  obtain ⟨c, hrun⟩ : ∃ c, (smallChain 15).run ledgerToken 255#160 [callAt 2#160 1 (.stake 10),
      callAt 2#160 11 .commenceUnstaking, callAt 2#160 604811 .withdrawStake] = some c := ⟨_, rfl⟩
  refine ⟨smallChain 15, c, _, rfl, hrun, ?_⟩
  cases hrun
  decide +kernel

end Rewards

end Lasr
