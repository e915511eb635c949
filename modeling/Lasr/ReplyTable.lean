import Mathlib.Data.List.Nodup
import Mathlib.Logic.Function.Basic
import Mathlib.Tactic.Common

/-!
# Tables of reply ports

A server keeps the port of each request under a key, until an outcome for the key comes, and
then answers on it and forgets it. A request for a key that already has a port takes its place.
Some outcomes may not be heard. A port is asked with once, since it is not copied.

From a request on, its fate is read off the events after it (`fate`) : the first of them that
is a request for its key, or an outcome for it that is heard, decides whether it is answered
(`answers_run`). So every request is answered exactly once by the time an outcome came
(`Prompt`) if and only if the first outcome after a request is heard, and no other request for
the key comes in between (`Orderly`).
-/

set_option linter.unusedSectionVars false

/-- The ports that wait, by key, and how often each port was answered. -/
@[ext]
structure ReplyTable (κ π : Type) where
  waiting : κ → Option π
  answers : π → ℕ

namespace ReplyTable

/-- What happens at a server. -/
inductive Event (κ π : Type) where
  /-- A request, with its port. -/
  | ask (key : κ) (port : π)
  /-- An outcome. One that is not heard answers nobody. -/
  | outcome (key : κ) (heard : Bool)
  /-- A request that is answered at once. -/
  | direct (port : π)
  | skip
  deriving DecidableEq

variable {κ π : Type} [DecidableEq κ] [DecidableEq π]

/-- The port an event brings. -/
def Event.port? : Event κ π → Option π
  | .ask _ p => some p
  | .direct p => some p
  | _ => none

/-- Nobody has asked yet. -/
def empty : ReplyTable κ π := ⟨fun _ => none, fun _ => 0⟩

/-- Answer on a port. -/
def answer (t : ReplyTable κ π) (p : π) : ReplyTable κ π :=
  { t with answers := Function.update t.answers p (t.answers p + 1) }

def step (t : ReplyTable κ π) : Event κ π → ReplyTable κ π
  | .ask k p => { t with waiting := Function.update t.waiting k (some p) }
  | .outcome k true =>
    match t.waiting k with
    | some p => { t.answer p with waiting := Function.update t.waiting k none }
    | none => t
  | .outcome _ false => t
  | .direct p => t.answer p
  | .skip => t

/-- Event after event. -/
def run (t : ReplyTable κ π) (events : List (Event κ π)) : ReplyTable κ π :=
  events.foldl step t

/-! ## One port -/

/-- The port waits under one key, and was not answered. -/
structure Holds (t : ReplyTable κ π) (k : κ) (p : π) : Prop where
  waiting : ∀ k', t.waiting k' = some p ↔ k' = k
  answers : t.answers p = 0

/-- The port does not wait, and was answered `n` times. -/
structure Gone (t : ReplyTable κ π) (p : π) (n : ℕ) : Prop where
  waiting : ∀ k, t.waiting k ≠ some p
  answers : t.answers p = n

/-- The first event that decides on a port under a key, and how often it was answered then. -/
def fate (k : κ) : List (Event κ π) → Option ℕ
  | [] => none
  | .ask k' _ :: events => if k' = k then some 0 else fate k events
  | .outcome k' heard :: events => if k' = k ∧ heard = true then some 1 else fate k events
  | .direct _ :: events => fate k events
  | .skip :: events => fate k events

variable {t : ReplyTable κ π} {e : Event κ π} {events : List (Event κ π)} {k : κ} {p : π} {n : ℕ}

theorem answers_answer_of_ne {q : π} (h : p ≠ q) : (t.answer q).answers p = t.answers p :=
  Function.update_of_ne h _ _

theorem Gone.step (h : t.Gone p n) (he : e.port? ≠ some p) : (t.step e).Gone p n := by
  cases e with
  | ask k q =>
    have hne : q ≠ p := fun heq => he (congrArg some heq)
    refine ⟨fun k' => ?_, h.answers⟩
    simp only [ReplyTable.step]
    rcases eq_or_ne k' k with rfl | hk
    · simpa using hne
    · rw [Function.update_of_ne hk]
      exact h.waiting k'
  | outcome k heard =>
    cases heard with
    | false => exact h
    | true =>
      simp only [ReplyTable.step]
      split
      · next q hq =>
        have hne : p ≠ q := by
          rintro rfl
          exact h.waiting k hq
        refine ⟨fun k' => ?_, (answers_answer_of_ne hne).trans h.answers⟩
        dsimp only
        rcases eq_or_ne k' k with rfl | hk
        · simp
        · rw [Function.update_of_ne hk]
          exact h.waiting k'
      · exact h
  | direct q =>
    have hne : p ≠ q := fun heq => he (congrArg some heq.symm)
    exact ⟨h.waiting, (answers_answer_of_ne hne).trans h.answers⟩
  | skip => exact h

theorem Gone.run (h : t.Gone p n) (hports : p ∉ events.filterMap Event.port?) :
    (t.run events).Gone p n := by
  induction events generalizing t with
  | nil => exact h
  | cons e events ih =>
    rw [List.mem_filterMap] at hports
    push Not at hports
    refine ih (h.step (hports e List.mem_cons_self)) ?_
    rw [List.mem_filterMap]
    push Not
    exact fun e' he' => hports e' (List.mem_cons_of_mem _ he')

/-- A new port waits under the key it is asked with. -/
theorem Gone.ask (h : t.Gone p 0) (k : κ) : (t.step (.ask k p)).Holds k p := by
  refine ⟨fun k' => ?_, h.answers⟩
  simp only [ReplyTable.step]
  rcases eq_or_ne k' k with rfl | hk
  · simp
  · rw [Function.update_of_ne hk]
    exact ⟨fun heq => absurd heq (h.waiting k'), fun heq => absurd heq hk⟩

/-- Another request for the key takes its place. -/
theorem Holds.displaced (h : t.Holds k p) {q : π} (hne : q ≠ p) :
    (t.step (.ask k q)).Gone p 0 := by
  refine ⟨fun k' => ?_, h.answers⟩
  simp only [ReplyTable.step]
  rcases eq_or_ne k' k with rfl | hk
  · simpa using hne
  · rw [Function.update_of_ne hk]
    exact fun heq => hk ((h.waiting k').1 heq)

/-- An outcome that is heard answers it. -/
theorem Holds.answered (h : t.Holds k p) : (t.step (.outcome k true)).Gone p 1 := by
  have hwaiting := (h.waiting k).2 rfl
  simp only [ReplyTable.step, hwaiting]
  refine ⟨fun k' => ?_, ?_⟩
  · dsimp only
    rcases eq_or_ne k' k with rfl | hk
    · simp
    · rw [Function.update_of_ne hk]
      exact fun heq => hk ((h.waiting k').1 heq)
  · simp [answer, h.answers]

/-- Nothing else changes that it waits. -/
theorem Holds.step (h : t.Holds k p) (he : e.port? ≠ some p) (hask : ∀ q, e ≠ .ask k q)
    (houtcome : e ≠ .outcome k true) : (t.step e).Holds k p := by
  cases e with
  | ask k' q =>
    have hk : k ≠ k' := fun heq => hask q (by rw [heq])
    have hne : q ≠ p := fun heq => he (congrArg some heq)
    refine ⟨fun k'' => ?_, h.answers⟩
    simp only [ReplyTable.step]
    rcases eq_or_ne k'' k' with rfl | hk'
    · simpa [hne] using hk.symm
    · rw [Function.update_of_ne hk']
      exact h.waiting k''
  | outcome k' heard =>
    cases heard with
    | false => exact h
    | true =>
      have hk : k ≠ k' := fun heq => houtcome (by rw [heq])
      simp only [ReplyTable.step]
      split
      · next q hq =>
        have hne : p ≠ q := by
          rintro rfl
          exact hk ((h.waiting k').1 hq).symm
        refine ⟨fun k'' => ?_, (answers_answer_of_ne hne).trans h.answers⟩
        dsimp only
        rcases eq_or_ne k'' k' with rfl | hk'
        · simpa using hk.symm
        · rw [Function.update_of_ne hk']
          exact h.waiting k''
      · exact h
  | direct q =>
    have hne : p ≠ q := fun heq => he (congrArg some heq.symm)
    exact ⟨h.waiting, (answers_answer_of_ne hne).trans h.answers⟩
  | skip => exact h

theorem answers_run_of_holds (h : t.Holds k p) (hports : p ∉ events.filterMap Event.port?) :
    (t.run events).answers p = (fate k events).getD 0 := by
  induction events generalizing t with
  | nil => exact h.answers
  | cons e events ih =>
    have he : e.port? ≠ some p := fun heq =>
      hports (List.mem_filterMap.2 ⟨e, List.mem_cons_self, heq⟩)
    have hrest : p ∉ events.filterMap Event.port? := by
      rw [List.mem_filterMap] at hports ⊢
      rintro ⟨e', he', heq⟩
      exact hports ⟨e', List.mem_cons_of_mem _ he', heq⟩
    change ((t.step e).run events).answers p = _
    cases e with
    | ask k' q =>
      rw [fate]
      split_ifs with hk
      · subst hk
        have hne : q ≠ p := fun heq => he (congrArg some heq)
        exact ((h.displaced hne).run hrest).answers
      · exact ih (h.step he (fun q heq => hk (Event.ask.inj heq).1) nofun) hrest
    | outcome k' heard =>
      rw [fate]
      split_ifs with hk
      · obtain ⟨rfl, rfl⟩ := hk
        exact (h.answered.run hrest).answers
      · refine ih (h.step he nofun fun heq => hk ?_) hrest
        cases heq
        exact ⟨rfl, rfl⟩
    | direct q => exact ih (h.step he nofun nofun) hrest
    | skip => exact ih (h.step he nofun nofun) hrest

/-- A port that is asked with after other events, and what comes after it. -/
theorem answers_run {pre post : List (Event κ π)}
    (hnodup : ((pre ++ .ask k p :: post).filterMap Event.port?).Nodup) :
    ((empty : ReplyTable κ π).run (pre ++ .ask k p :: post)).answers p = (fate k post).getD 0 := by
  rw [List.filterMap_append, List.nodup_append] at hnodup
  obtain ⟨-, hpost, hdisjoint⟩ := hnodup
  have hpre : p ∉ pre.filterMap Event.port? := fun hmem =>
    hdisjoint p hmem p (by simp [Event.port?]) rfl
  have hgone : (empty : ReplyTable κ π).Gone p 0 := ⟨fun _ => nofun, rfl⟩
  rw [run, List.foldl_append, List.foldl_cons]
  refine answers_run_of_holds ((hgone.run hpre).ask k) ?_
  simpa [Event.port?] using (List.nodup_cons.1 hpost).1

/-! ## Every port -/

/-- Once a request was made, its port is answered at most once, and exactly once from the first
outcome for its key on. -/
def Prompt (events : List (Event κ π)) : Prop :=
  ∀ pre k p mid post, events = pre ++ .ask k p :: (mid ++ post) →
    ((empty : ReplyTable κ π).run (pre ++ .ask k p :: mid)).answers p ≤ 1 ∧
    ((∃ heard, .outcome k heard ∈ mid) →
      ((empty : ReplyTable κ π).run (pre ++ .ask k p :: mid)).answers p = 1)

/-- The first outcome after a request is heard, and comes before the next request for the
key. -/
def Orderly (events : List (Event κ π)) : Prop :=
  ∀ pre k p mid heard post, events = pre ++ .ask k p :: (mid ++ .outcome k heard :: post) →
    (∀ b, .outcome k b ∉ mid) → heard = true ∧ ∀ q, .ask k q ∉ mid

theorem fate_append {mid post : List (Event κ π)} :
    fate k (mid ++ post) = (fate k mid).or (fate k post) := by
  induction mid with
  | nil => rfl
  | cons e mid ih =>
    cases e with
    | ask k' q =>
      rw [List.cons_append, fate, fate]
      split_ifs
      · rfl
      · exact ih
    | outcome k' heard =>
      rw [List.cons_append, fate, fate]
      split_ifs
      · rfl
      · exact ih
    | direct q => exact ih
    | skip => exact ih

theorem fate_le_one : (fate k events).getD 0 ≤ 1 := by
  induction events with
  | nil => exact Nat.zero_le 1
  | cons e events ih =>
    cases e with
    | ask k' q =>
      rw [fate]
      split_ifs
      · exact Nat.zero_le 1
      · exact ih
    | outcome k' heard =>
      rw [fate]
      split_ifs
      · exact Nat.le_refl 1
      · exact ih
    | direct q => exact ih
    | skip => exact ih

/-- Nothing has decided yet if and only if no request for the key came, and no outcome that is
heard. -/
theorem fate_eq_none_iff :
    fate k events = none ↔ (∀ q, .ask k q ∉ events) ∧ .outcome k true ∉ events := by
  induction events with
  | nil => simp [fate]
  | cons e events ih =>
    cases e with
    | ask k' q =>
      rw [fate]
      split_ifs with hk
      · subst hk
        exact ⟨nofun, fun h => absurd List.mem_cons_self (h.1 q)⟩
      · simp [ih, Ne.symm hk]
    | outcome k' heard =>
      rw [fate]
      split_ifs with hk
      · obtain ⟨rfl, rfl⟩ := hk
        simp
      · have hne : (.outcome k true : Event κ π) ≠ .outcome k' heard := by
          rintro ⟨⟩
          exact hk ⟨rfl, rfl⟩
        simp [ih, hne]
    | direct q => simp [fate, ih]
    | skip => simp [fate, ih]

/-- Without an outcome there is no answer. -/
theorem fate_ne_one (h : ∀ b, .outcome k b ∉ events) : fate k events ≠ some 1 := by
  induction events with
  | nil => exact nofun
  | cons e events ih =>
    have hrest : ∀ b, .outcome k b ∉ events := fun b hmem => h b (List.mem_cons_of_mem _ hmem)
    cases e with
    | ask k' q =>
      rw [fate]
      split_ifs
      · exact nofun
      · exact ih hrest
    | outcome k' heard =>
      rw [fate, if_neg]
      · exact ih hrest
      · rintro ⟨rfl, -⟩
        exact h heard List.mem_cons_self
    | direct q => exact ih hrest
    | skip => exact ih hrest

/-- The first outcome for a key. -/
theorem exists_first_outcome {heard : Bool} (h : .outcome k heard ∈ events) :
    ∃ mid b post, events = mid ++ .outcome k b :: post ∧ ∀ b', .outcome k b' ∉ mid := by
  induction events with
  | nil => cases h
  | cons e events ih =>
    by_cases he : ∃ b, e = .outcome k b
    · obtain ⟨b, rfl⟩ := he
      exact ⟨[], b, events, rfl, fun b' => List.not_mem_nil⟩
    · push Not at he
      obtain heq | hmem := List.mem_cons.1 h
      · exact absurd heq.symm (he heard)
      · obtain ⟨mid, b, post, rfl, hmid⟩ := ih hmem
        refine ⟨e :: mid, b, post, rfl, fun b' hmem' => ?_⟩
        obtain heq | hmem' := List.mem_cons.1 hmem'
        · exact he b' heq.symm
        · exact hmid b' hmem'

/-- Every request is answered exactly once if and only if the events are orderly. -/
theorem prompt_iff_orderly (hnodup : (events.filterMap Event.port?).Nodup) :
    Prompt events ↔ Orderly events := by
  -- up to any event, a port is answered as its fate says
  have hanswers : ∀ pre k p mid post, events = pre ++ .ask k p :: (mid ++ post) →
      ((empty : ReplyTable κ π).run (pre ++ .ask k p :: mid)).answers p = (fate k mid).getD 0 := by
    rintro pre k p mid post rfl
    refine answers_run ((List.Sublist.filterMap _ ?_).nodup hnodup)
    exact List.Sublist.append_left (.cons_cons _ (List.sublist_append_left mid post)) pre
  constructor
  · intro h pre k p mid heard post hsplit hmid
    have hsplit' : events = pre ++ .ask k p :: ((mid ++ [.outcome k heard]) ++ post) := by
      rw [hsplit, List.append_assoc]
      rfl
    have hone := (h pre k p _ post hsplit').2 ⟨heard, List.mem_append_right _ List.mem_cons_self⟩
    rw [hanswers pre k p _ post hsplit', fate_append] at hone
    cases hfate : fate k mid with
    | none =>
      rw [hfate, Option.none_or, fate] at hone
      refine ⟨?_, (fate_eq_none_iff.1 hfate).1⟩
      split_ifs at hone with hk
      · exact hk.2
      · cases hone
    | some n =>
      rw [hfate, Option.some_or, Option.getD_some] at hone
      exact absurd (hone ▸ hfate) (fate_ne_one hmid)
  · intro h pre k p mid post hsplit
    rw [hanswers pre k p mid post hsplit]
    refine ⟨fate_le_one, fun ⟨heard, hmem⟩ => ?_⟩
    obtain ⟨first, b, rest, rfl, hfirst⟩ := exists_first_outcome hmem
    obtain ⟨rfl, hask⟩ := h pre k p first b (rest ++ post)
      (by rw [hsplit, List.append_assoc, List.cons_append]) hfirst
    rw [fate_append, fate_eq_none_iff.2 ⟨hask, hfirst true⟩, Option.none_or, fate,
      if_pos ⟨rfl, rfl⟩]
    rfl

/-! ## Deciding it -/

/-- The first outcome for the key, if there is one, is heard, and comes before the next request
for the key. -/
def Settles (k : κ) (events : List (Event κ π)) : Prop :=
  ∀ mid heard post, events = mid ++ .outcome k heard :: post → (∀ b, .outcome k b ∉ mid) →
    heard = true ∧ ∀ q, .ask k q ∉ mid

theorem settles_nil : Settles k ([] : List (Event κ π)) := by
  intro mid heard post hsplit
  cases mid <;> cases hsplit

theorem settles_ask : Settles k (.ask k p :: events) ↔ ∀ b, .outcome k b ∉ events := by
  constructor
  · intro h b hmem
    obtain ⟨mid, b', post, rfl, hmid⟩ := exists_first_outcome hmem
    have hasks := (h (.ask k p :: mid) b' post rfl fun b hb => hmid b (by simpa using hb)).2
    exact hasks p List.mem_cons_self
  · intro h mid heard post hsplit
    cases mid with
    | nil => cases hsplit
    | cons e mid =>
      cases hsplit
      exact absurd (List.mem_append_right _ List.mem_cons_self) (h heard)

theorem settles_outcome {heard : Bool} :
    Settles k (.outcome k heard :: events) ↔ heard = true := by
  constructor
  · intro h
    exact (h [] heard events rfl fun _ => List.not_mem_nil).1
  · rintro rfl mid heard post hsplit hmid
    cases mid with
    | nil =>
      cases hsplit
      exact ⟨rfl, fun _ => List.not_mem_nil⟩
    | cons e mid =>
      cases hsplit
      exact absurd List.mem_cons_self (hmid true)

/-- An event that is not about the key decides nothing. -/
theorem settles_cons (hask : ∀ q, e ≠ .ask k q) (houtcome : ∀ b, e ≠ .outcome k b) :
    Settles k (e :: events) ↔ Settles k events := by
  constructor
  · rintro h mid heard post rfl hmid
    obtain ⟨hheard, hasks⟩ := h (e :: mid) heard post rfl fun b hb =>
      (List.mem_cons.1 hb).elim (fun heq => houtcome b heq.symm) (hmid b)
    exact ⟨hheard, fun q hq => hasks q (List.mem_cons_of_mem _ hq)⟩
  · intro h mid heard post hsplit hmid
    cases mid with
    | nil =>
      cases hsplit
      exact absurd rfl (houtcome heard)
    | cons e' mid =>
      cases hsplit
      obtain ⟨hheard, hasks⟩ := h mid heard post rfl fun b hb =>
        hmid b (List.mem_cons_of_mem _ hb)
      exact ⟨hheard, fun q hq => (List.mem_cons.1 hq).elim (fun heq => hask q heq.symm) (hasks q)⟩

instance decidableSettles : ∀ events : List (Event κ π), Decidable (Settles k events)
  | [] => .isTrue settles_nil
  | .ask k' p :: events =>
    have := decidableSettles events
    if hk : k' = k then
      decidable_of_iff (∀ b, .outcome k b ∉ events) (hk ▸ settles_ask.symm)
    else
      decidable_of_iff (Settles k events)
        (settles_cons (fun _ h => hk (Event.ask.inj h).1) (by simp)).symm
  | .outcome k' heard :: events =>
    have := decidableSettles events
    if hk : k' = k then
      decidable_of_iff (heard = true) (hk ▸ settles_outcome.symm)
    else
      decidable_of_iff (Settles k events)
        (settles_cons (by simp) fun _ h => hk (Event.outcome.inj h).1).symm
  | .direct _ :: events =>
    have := decidableSettles events
    decidable_of_iff (Settles k events) (settles_cons (by simp) (by simp)).symm
  | .skip :: events =>
    have := decidableSettles events
    decidable_of_iff (Settles k events) (settles_cons (by simp) (by simp)).symm

theorem orderly_cons :
    Orderly (e :: events) ↔ (∀ k p, e = .ask k p → Settles k events) ∧ Orderly events := by
  constructor
  · intro h
    refine ⟨?_, ?_⟩
    · rintro k p rfl mid heard post rfl hmid
      exact h [] k p mid heard post rfl hmid
    · rintro pre k p mid heard post rfl hmid
      exact h (e :: pre) k p mid heard post rfl hmid
  · rintro ⟨hsettles, h⟩ pre k p mid heard post hsplit hmid
    cases pre with
    | nil =>
      cases hsplit
      exact hsettles k p rfl mid heard post rfl hmid
    | cons e' pre =>
      cases hsplit
      exact h pre k p mid heard post rfl hmid

instance decidableOrderly : ∀ events : List (Event κ π), Decidable (Orderly events)
  | [] => .isTrue fun pre _ _ _ _ _ hsplit => absurd hsplit (by simp)
  | .ask k p :: events =>
    have := decidableOrderly events
    decidable_of_iff (Settles k events ∧ Orderly events) (by
      rw [orderly_cons]
      refine and_congr_left' ⟨?_, fun h => h k p rfl⟩
      rintro h _ _ ⟨⟩
      exact h)
  | .outcome _ _ :: events =>
    have := decidableOrderly events
    decidable_of_iff (Orderly events) (by simp [orderly_cons])
  | .direct _ :: events =>
    have := decidableOrderly events
    decidable_of_iff (Orderly events) (by simp [orderly_cons])
  | .skip :: events =>
    have := decidableOrderly events
    decidable_of_iff (Orderly events) (by simp [orderly_cons])

end ReplyTable
