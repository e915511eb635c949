import Lasr.ActorSystem
import Mathlib.Logic.Relation
import Mathlib.Data.Set.BooleanAlgebra
import Mathlib.Order.CompletePartialOrder

/-!
# Tasks that keep apart

Programs over a store of keyed cells that are run in an interleaving, one operation at a
time. Each kind of program has the cells it may read and the cells it may write (`Tasks`), and
a pool has the store, what is left of those that run, and the labels of those that returned
(`Pool`). Two programs keep apart when neither writes a cell that the other may read.

In a pool where only programs that keep apart run together, what a program sees is stable : an
assertion about its cells holds on while others run (`Stable.step`). From this come two rules.
A program that ran among others has done what it would have done alone, so at rest the store
is that of the programs that returned, run one after another (`Serial.step`); for this the
ones that fail are to leave the store as it was. And what programs establish about their
cells, and no program takes back, holds ever after (`Established.step`).
-/

set_option linter.unusedSectionVars false

variable {E : Signature} {ε K : Type} {V : K → Type} {L : Type*}

namespace Prog

variable {α β : Type}

/-- The program changes only cells of `W`. -/
def Confined (H : KeyedHandler E K V) (W : Set K) (p : Prog E ε α) : Prop :=
  p.Meets (fun o => ∀ m k, k ∉ W → (H.handler o m).2 k = m k) fun _ => True

/-- The program leaves the store as it was if it fails. -/
def FailsClean (H : KeyedHandler E K V) (m : (k : K) → V k) (p : Prog E ε α) : Prop :=
  ∀ e, (run H.handler p m).1 = .error e → (run H.handler p m).2 = m

/-- Run alone from a store, no operation of the program takes a cell where `g` does not let
it go. -/
def Grows (H : KeyedHandler E K V) (g : (k : K) → V k → V k → Prop) :
    Prog E ε α → ((k : K) → V k) → Prop
  | ret _, _ => True
  | fail _, _ => True
  | op o c, m => (∀ k, g k (m k) ((H.handler o m).2 k)) ∧
    Grows H g (c (H.handler o m).1) (H.handler o m).2

variable {H : KeyedHandler E K V} {W F : Set K} {g : (k : K) → V k → V k → Prop}
  {m m' : (k : K) → V k}

theorem run_confined :
    ∀ {p : Prog E ε α} {m : (k : K) → V k} {k : K}, p.Confined H W → k ∉ W →
      (run H.handler p m).2 k = m k
  | ret _, _, _, _, _ => rfl
  | fail _, _, _, _, _ => rfl
  | op o c, m, k, hp, hk => by
    rw [run_op, run_confined (hp.2 _) hk, hp.1 m k hk]

/-- What a program does not touch it does not change. -/
theorem Within.confined {p : Prog E ε α} (h : p.Within H F) : p.Confined H F :=
  h.mono (fun o ho m k hk => H.frame o m k fun hkey => hk (ho k hkey)) fun _ hQ => hQ

/-- That a failure leaves no trace is seen by the cells the program touches. -/
theorem FailsClean.congr {p : Prog E ε α} (h : p.FailsClean H m) (hp : p.Within H F)
    (hm : ∀ k ∈ F, m k = m' k) : p.FailsClean H m' := by
  intro e he
  obtain ⟨hr, hc⟩ := run_congr hp hm
  have hclean := h e (hr.trans he)
  funext k
  by_cases hk : k ∈ F
  · rw [← hc k hk, hclean, hm k hk]
  · exact run_frame hp hk

/-- A sequence grows when both parts do. -/
theorem Grows.bind {f : α → Prog E ε β} :
    ∀ {p : Prog E ε α} {m : (k : K) → V k}, p.Grows H g m →
      (∀ a, (run H.handler p m).1 = .ok a → (f a).Grows H g (run H.handler p m).2) →
      (p >>= f).Grows H g m
  | ret a, _, _, hf => hf a rfl
  | fail _, _, _, _ => trivial
  | op _ _, _, hp, hf => ⟨hp.1, Grows.bind hp.2 hf⟩

/-- A program that changes nothing. -/
theorem grows_of_still (hg : ∀ k v, g k v v) {P : α → Prop} :
    ∀ {p : Prog E ε α} {m : (k : K) → V k}, p.Meets (fun o => ∀ m, (H.handler o m).2 = m) P →
      p.Grows H g m
  | ret _, _, _ => trivial
  | fail _, _, _ => trivial
  | op o c, m, hp => by
    refine ⟨fun k => ?_, grows_of_still hg (hp.2 _)⟩
    rw [hp.1 m]
    exact hg k _

/-- How a program grows is seen by the cells it touches. -/
theorem Grows.congr (hg : ∀ k v, g k v v) :
    ∀ {p : Prog E ε α} {m m' : (k : K) → V k}, p.Grows H g m → p.Within H F →
      (∀ k ∈ F, m k = m' k) → p.Grows H g m'
  | ret _, _, _, _, _, _ => trivial
  | fail _, _, _, _, _, _ => trivial
  | op o c, m, m', h, hp, hm => by
    obtain ⟨hr, hc⟩ := H.read o m m' fun k hk => hm k (hp.1 k hk)
    have hother : ∀ k, H.key o ≠ some k → (H.handler o m).2 k = m k ∧
        (H.handler o m').2 k = m' k := fun k hk => ⟨H.frame o m k hk, H.frame o m' k hk⟩
    refine ⟨fun k => ?_, ?_⟩
    · by_cases hk : H.key o = some k
      · rw [← hc k hk, ← hm k (hp.1 k hk)]
        exact h.1 k
      · rw [(hother k hk).2]
        exact hg k _
    · rw [← hr]
      refine Grows.congr hg h.2 (hp.2 _) fun k hkF => ?_
      by_cases hk : H.key o = some k
      · exact hc k hk
      · rw [(hother k hk).1, (hother k hk).2, hm k hkF]

end Prog

/-! ## Pools -/

/-- Programs over a store of cells, one for each label, with the cells they keep to. -/
structure Tasks (E : Signature) (ε K : Type) (V : K → Type) (L : Type*) where
  /-- How operations act on the store. -/
  cells : KeyedHandler E K V
  /-- The program. -/
  body : L → Prog E ε Unit
  /-- The cells it may read or write. -/
  reads : L → Set K
  /-- The cells it may write. -/
  writes : L → Set K
  writes_subset : ∀ l, writes l ⊆ reads l
  within : ∀ l, (body l).Within cells (reads l)
  confined : ∀ l, (body l).Confined cells (writes l)

/-- Programs in execution. -/
structure Pool (E : Signature) (ε K : Type) (V : K → Type) (L : Type*) where
  store : (k : K) → V k
  /-- The programs that returned, in that order. -/
  done : List L
  /-- What is left of those that run. -/
  running : List (Future E ε L)

namespace Tasks

variable (T : Tasks E ε K V L)

/-- Neither program writes what the other may read. -/
def Apart (l l' : L) : Prop :=
  Disjoint (T.writes l) (T.reads l') ∧ Disjoint (T.writes l') (T.reads l)

variable {T} in
theorem Apart.symm {l l' : L} (h : T.Apart l l') : T.Apart l' l := ⟨h.2, h.1⟩

/-- Programs run one after another. -/
def serially (m : (k : K) → V k) (ls : List L) : (k : K) → V k :=
  ls.foldl (fun m l => ((T.body l).run T.cells.handler m).2) m

theorem serially_concat (m : (k : K) → V k) (ls : List L) (l : L) :
    T.serially m (ls ++ [l]) = ((T.body l).run T.cells.handler (T.serially m ls)).2 := by
  simp [serially]

/-- A step of a pool, with the label of the program it starts, if any. -/
inductive Step (s : Pool E ε K V L) : Option L → Pool E ε K V L → Prop
  | start (l : L) : Step s (some l) { s with running := s.running ++ [⟨l, T.body l⟩] }
  | perform {t₁ t₂ : List (Future E ε L)} {l : L} {o : E.Op} {c : E.Resp o → Prog E ε Unit}
      (hrun : s.running = t₁ ++ ⟨l, .op o c⟩ :: t₂) :
      Step s none ⟨(T.cells.handler o s.store).2, s.done,
        t₁ ++ ⟨l, c (T.cells.handler o s.store).1⟩ :: t₂⟩
  | ret {t₁ t₂ : List (Future E ε L)} {l : L} {u : Unit}
      (hrun : s.running = t₁ ++ ⟨l, .ret u⟩ :: t₂) :
      Step s none ⟨s.store, s.done ++ [l], t₁ ++ t₂⟩
  | fail {t₁ t₂ : List (Future E ε L)} {l : L} {e : ε}
      (hrun : s.running = t₁ ++ ⟨l, .fail e⟩ :: t₂) : Step s none ⟨s.store, s.done, t₁ ++ t₂⟩

/-- The programs that run keep to their cells, and apart from each other. -/
structure Orderly (s : Pool E ε K V L) : Prop where
  within : ∀ t ∈ s.running, t.prog.Within T.cells (T.reads t.label)
  confined : ∀ t ∈ s.running, t.prog.Confined T.cells (T.writes t.label)
  apart : s.running.Pairwise fun t t' => T.Apart t.label t'.label

/-- An assertion about what is left of a program that rests on the cells it may read, and
holds on as the program goes on. -/
structure Stable (A : Future E ε L → ((k : K) → V k) → Prop) : Prop where
  frame : ∀ t m m', t.prog.Within T.cells (T.reads t.label) →
    (∀ k ∈ T.reads t.label, m k = m' k) → A t m → A t m'
  next : ∀ l o c m, A ⟨l, .op o c⟩ m → A ⟨l, c (T.cells.handler o m).1⟩ (T.cells.handler o m).2

variable {T} {s s' : Pool E ε K V L} {a : Option L} {t₁ t₂ : List (Future E ε L)}

/-- A program that starts keeps apart from those that run. -/
def StartsApart (T : Tasks E ε K V L) (s : Pool E ε K V L) (a : Option L) : Prop :=
  ∀ l, a = some l → ∀ t ∈ s.running, T.Apart l t.label

theorem forall_mem_split {P : Future E ε L → Prop} {t : Future E ε L} :
    (∀ t' ∈ t₁ ++ t :: t₂, P t') ↔ P t ∧ ∀ t' ∈ t₁ ++ t₂, P t' := by
  simp only [List.forall_mem_append, List.forall_mem_cons]
  tauto

/-- A program of the pool, and those around it. -/
theorem Orderly.split {t : Future E ε L} (h : T.Orderly s) (hrun : s.running = t₁ ++ t :: t₂) :
    (∀ t' ∈ t₁ ++ t₂, T.Apart t.label t'.label) ∧
      (t₁ ++ t₂).Pairwise fun t t' => T.Apart t.label t'.label := by
  have hpair := h.apart
  rw [hrun] at hpair
  obtain ⟨h₁, h₂, h₃⟩ := List.pairwise_append.1 hpair
  obtain ⟨ht, h₂'⟩ := List.pairwise_cons.1 h₂
  refine ⟨fun t' ht' => ?_, List.pairwise_append.2 ⟨h₁, h₂', fun x hx y hy => ?_⟩⟩
  · rcases List.mem_append.1 ht' with ht' | ht'
    · exact (h₃ t' ht' t (List.mem_cons_self ..)).symm
    · exact ht t' ht'
  · exact h₃ x hx y (List.mem_cons_of_mem _ hy)

/-- Without one of its programs the pool stays orderly. -/
theorem Orderly.erase {t : Future E ε L} (h : T.Orderly s) (hrun : s.running = t₁ ++ t :: t₂)
    (m : (k : K) → V k) (done : List L) : T.Orderly ⟨m, done, t₁ ++ t₂⟩ := by
  have hwithin := h.within
  have hconfined := h.confined
  rw [hrun, forall_mem_split] at hwithin hconfined
  exact ⟨hwithin.2, hconfined.2, (h.split hrun).2⟩

theorem Orderly.step (h : T.Orderly s) (ha : T.StartsApart s a) (hs : T.Step s a s') :
    T.Orderly s' := by
  cases hs with
  | start l =>
    refine ⟨List.forall_mem_append.2 ⟨h.within, ?_⟩, List.forall_mem_append.2 ⟨h.confined, ?_⟩,
      List.pairwise_append.2 ⟨h.apart, List.pairwise_singleton _ _, fun t ht t' ht' => ?_⟩⟩
    · exact List.forall_mem_singleton.2 (T.within l)
    · exact List.forall_mem_singleton.2 (T.confined l)
    · rw [List.mem_singleton.1 ht']
      exact (ha l rfl t ht).symm
  | @perform t₁ t₂ l o c hrun =>
    obtain ⟨hapart, hpair⟩ := h.split hrun
    have hwithin := h.within
    have hconfined := h.confined
    rw [hrun, forall_mem_split] at hwithin hconfined
    refine ⟨forall_mem_split.2 ⟨hwithin.1.2 _, hwithin.2⟩,
      forall_mem_split.2 ⟨hconfined.1.2 _, hconfined.2⟩, ?_⟩
    obtain ⟨h₁, h₂, h₃⟩ := List.pairwise_append.1 hpair
    refine List.pairwise_append.2 ⟨h₁, List.pairwise_cons.2 ⟨fun t ht => ?_, h₂⟩,
      fun t ht t' ht' => ?_⟩
    · exact hapart t (List.mem_append_right _ ht)
    · rcases List.mem_cons.1 ht' with rfl | ht'
      · exact (hapart t (List.mem_append_left _ ht)).symm
      · exact h₃ t ht t' ht'
  | ret hrun => exact h.erase hrun _ _
  | fail hrun => exact h.erase hrun _ _

/-- An operation of one program leaves the cells that another may read. -/
theorem Orderly.frame {l : L} {o : E.Op} {c : E.Resp o → Prog E ε Unit} (h : T.Orderly s)
    (hrun : s.running = t₁ ++ ⟨l, .op o c⟩ :: t₂) {t : Future E ε L} (ht : t ∈ t₁ ++ t₂) {k : K}
    (hk : k ∈ T.reads t.label) : s.store k = (T.cells.handler o s.store).2 k := by
  have hconfined := h.confined ⟨l, .op o c⟩ (by simp [hrun])
  refine (hconfined.1 s.store k fun hw => ?_).symm
  exact Set.disjoint_left.1 ((h.split hrun).1 t ht).1 hw hk

/-- A stable assertion about every program that runs holds on. -/
theorem Stable.step {A : Future E ε L → ((k : K) → V k) → Prop} (hA : T.Stable A)
    (h : T.Orderly s) (hs : T.Step s a s') (hall : ∀ t ∈ s.running, A t s.store)
    (hstart : ∀ l, a = some l → A ⟨l, T.body l⟩ s.store) : ∀ t ∈ s'.running, A t s'.store := by
  cases hs with
  | start l =>
    exact List.forall_mem_append.2 ⟨hall, List.forall_mem_singleton.2 (hstart l rfl)⟩
  | @perform t₁ t₂ l o c hrun =>
    have hwithin := h.within
    rw [hrun, forall_mem_split] at hall hwithin
    refine forall_mem_split.2 ⟨hA.next l o c _ hall.1, fun t ht => ?_⟩
    exact hA.frame t _ _ (hwithin.2 t ht) (fun k hk => h.frame hrun ht hk) (hall.2 t ht)
  | ret hrun =>
    rw [hrun, forall_mem_split] at hall
    exact hall.2
  | fail hrun =>
    rw [hrun, forall_mem_split] at hall
    exact hall.2

/-- While the others wait, a program gets through the first part of what is left of it. -/
theorem forward {α : Type} {l : L} {f : α → Prog E ε Unit} {a : α} :
    ∀ {p : Prog E ε α} {m : (k : K) → V k} {done : List L},
      (Prog.run T.cells.handler p m).1 = .ok a →
        Relation.ReflTransGen (fun s s' => T.Step s none s') ⟨m, done, t₁ ++ ⟨l, p >>= f⟩ :: t₂⟩
          ⟨(Prog.run T.cells.handler p m).2, done, t₁ ++ ⟨l, f a⟩ :: t₂⟩
  | .ret a', _, _, h => by
    obtain rfl : a' = a := Except.ok.inj h
    exact .refl
  | .op o c, m, done, h => .head (.perform rfl) (forward (p := c (T.cells.handler o m).1) h)

/-- What follows a program that catches its failures knows how it ended. -/
theorem forward_caught {ε' α : Type} {l : L} {p : Prog E ε' α} {g : Except ε' α → Prog E ε Unit}
    {m : (k : K) → V k} {done : List L} :
    Relation.ReflTransGen (fun s s' => T.Step s none s') ⟨m, done, t₁ ++ ⟨l, p.caught >>= g⟩ :: t₂⟩
      ⟨(Prog.run T.cells.handler p m).2, done,
        t₁ ++ ⟨l, g (Prog.run T.cells.handler p m).1⟩ :: t₂⟩ := by
  have hrun : Prog.run T.cells.handler (p.caught : Prog E ε (Except ε' α)) m =
      (.ok (Prog.run T.cells.handler p m).1, (Prog.run T.cells.handler p m).2) :=
    Prog.run_caught T.cells.handler p m
  have hforward : Relation.ReflTransGen (fun s s' => T.Step s none s')
      ⟨m, done, t₁ ++ ⟨l, p.caught >>= g⟩ :: t₂⟩
      ⟨(Prog.run T.cells.handler (p.caught : Prog E ε (Except ε' α)) m).2, done,
        t₁ ++ ⟨l, g (Prog.run T.cells.handler p m).1⟩ :: t₂⟩ :=
    forward (congrArg Prod.fst hrun)
  rwa [hrun] at hforward

/-- The same for the first part of such a program, if that returns. -/
theorem forward_caught_bind {ε' α β : Type} {l : L} {p : Prog E ε' α} {f : α → Prog E ε' β}
    {g : Except ε' β → Prog E ε Unit} {m m' : (k : K) → V k} {done : List L} {a : α}
    (h : Prog.run T.cells.handler p m = (.ok a, m')) :
    Relation.ReflTransGen (fun s s' => T.Step s none s')
      ⟨m, done, t₁ ++ ⟨l, (p >>= f).caught >>= g⟩ :: t₂⟩
      ⟨m', done, t₁ ++ ⟨l, (f a).caught >>= g⟩ :: t₂⟩ := by
  rw [Prog.caught_bind, Prog.bind_assoc]
  have hforward : Relation.ReflTransGen (fun s s' => T.Step s none s')
      ⟨m, done, t₁ ++ ⟨l, p.caught >>= fun x => Prog.caughtThen f x >>= g⟩ :: t₂⟩
      ⟨(Prog.run T.cells.handler p m).2, done,
        t₁ ++ ⟨l, Prog.caughtThen f (Prog.run T.cells.handler p m).1 >>= g⟩ :: t₂⟩ :=
    forward_caught
  rw [h] at hforward
  exact hforward

/-! ## One program among others -/

/-- The programs that run keep to their cells. -/
structure Kept (T : Tasks E ε K V L) (s : Pool E ε K V L) : Prop where
  within : ∀ t ∈ s.running, t.prog.Within T.cells (T.reads t.label)
  confined : ∀ t ∈ s.running, t.prog.Confined T.cells (T.writes t.label)

theorem Kept.step (h : T.Kept s) (hs : T.Step s a s') : T.Kept s' := by
  obtain ⟨hwithin, hconfined⟩ := h
  cases hs with
  | start l =>
    exact ⟨List.forall_mem_append.2 ⟨hwithin, List.forall_mem_singleton.2 (T.within l)⟩,
      List.forall_mem_append.2 ⟨hconfined, List.forall_mem_singleton.2 (T.confined l)⟩⟩
  | perform hrun =>
    rw [hrun, forall_mem_split] at hwithin hconfined
    exact ⟨forall_mem_split.2 ⟨hwithin.1.2 _, hwithin.2⟩,
      forall_mem_split.2 ⟨hconfined.1.2 _, hconfined.2⟩⟩
  | ret hrun =>
    rw [hrun, forall_mem_split] at hwithin hconfined
    exact ⟨hwithin.2, hconfined.2⟩
  | fail hrun =>
    rw [hrun, forall_mem_split] at hwithin hconfined
    exact ⟨hwithin.2, hconfined.2⟩

/-- A program keeps apart from the others that run. -/
def Alone (T : Tasks E ε K V L) (l : L) (s : Pool E ε K V L) : Prop :=
  s.running.Pairwise fun t t' => t.label = l ∨ t'.label = l → T.Apart t.label t'.label

/-- Those around a program keep apart from it. -/
theorem Alone.apart {l : L} {t t' : Future E ε L} (h : T.Alone l s)
    (hrun : s.running = t₁ ++ t :: t₂) (ht' : t' ∈ t₁ ++ t₂) (hl : t.label = l ∨ t'.label = l) :
    T.Apart t.label t'.label := by
  unfold Alone at h
  rw [hrun] at h
  obtain ⟨-, h₂, h₃⟩ := List.pairwise_append.1 h
  rcases List.mem_append.1 ht' with ht' | ht'
  · exact (h₃ t' ht' t List.mem_cons_self hl.symm).symm
  · exact (List.pairwise_cons.1 h₂).1 t' ht' hl

/-- What a program is to leave in its own cells is there once it returned, and as long as it
runs the rest of it, run alone, would leave it there. -/
structure Secured (T : Tasks E ε K V L) (P : ((k : K) → V k) → Prop) (l : L)
    (s : Pool E ε K V L) : Prop where
  kept : T.Kept s
  running : ∀ t ∈ s.running, t.label = l → P (t.prog.run T.cells.handler s.store).2
  once : l ∈ s.done → ∀ t ∈ s.running, t.label ≠ l
  done : l ∈ s.done → P s.store

section Secured

variable {P : ((k : K) → V k) → Prop} {D : Set K} {l : L}
variable (hlocal : ∀ m m', (∀ k ∈ D, m k = m' k) → P m → P m')
variable (hown : D ⊆ T.reads l) (hself : ¬T.Apart l l)

include hlocal hown hself in
/-- A step keeps it there, if the program runs apart from the others, only once, and those that
run after it do not write its own cells. -/
theorem Secured.step (h : T.Secured P l s) (halone : T.Alone l s)
    (hafter : l ∈ s.done → ∀ t ∈ s.running, Disjoint (T.writes t.label) D)
    (hstart : a = some l → l ∉ s.done ∧ P ((T.body l).run T.cells.handler s.store).2)
    (hs : T.Step s a s') : T.Secured P l s' := by
  have hkept := h.kept.step hs
  obtain ⟨⟨hwithin, hconfined⟩, hrunning, honce, hdone⟩ := h
  cases hs with
  | start l' =>
    refine ⟨hkept, List.forall_mem_append.2 ⟨hrunning, List.forall_mem_singleton.2 fun hl => ?_⟩,
      fun hmem => List.forall_mem_append.2 ⟨honce hmem, List.forall_mem_singleton.2 fun hl => ?_⟩,
      hdone⟩
    · obtain rfl : l' = l := hl
      exact (hstart rfl).2
    · obtain rfl : l' = l := hl
      exact (hstart rfl).1 hmem
  | @perform t₁ t₂ l' o c hrun =>
    have hwithin' := hwithin
    rw [hrun, forall_mem_split] at hrunning honce hwithin'
    have hop := hconfined ⟨l', .op o c⟩ (by simp [hrun])
    refine ⟨hkept, forall_mem_split.2 ⟨hrunning.1, fun t ht hl => ?_⟩,
      fun hmem => forall_mem_split.2 (honce hmem), fun hmem => ?_⟩
    · -- the operation of another program leaves what this one reads
      have hapart := halone.apart hrun ht (Or.inr hl)
      have hsame : ∀ k ∈ T.reads t.label, s.store k = (T.cells.handler o s.store).2 k :=
        fun k hk => (hop.1 s.store k fun hw => Set.disjoint_left.1 hapart.1 hw hk).symm
      have hcells := (Prog.run_congr (hwithin'.2 t ht) hsame).2
      exact hlocal _ _ (fun k hk => hcells k (hl ▸ hown hk)) (hrunning.2 t ht hl)
    · have hdisjoint := hafter hmem ⟨l', .op o c⟩ (by simp [hrun])
      refine hlocal _ _ (fun k hk => ?_) (hdone hmem)
      exact (hop.1 s.store k fun hw => Set.disjoint_left.1 hdisjoint hw hk).symm
  | @ret t₁ t₂ l' u hrun =>
    rw [hrun, forall_mem_split] at hrunning honce
    refine ⟨hkept, hrunning.2, fun hmem t ht hl => ?_, fun hmem => ?_⟩
    · rcases List.mem_append.1 hmem with hmem | hmem
      · exact (honce hmem).2 t ht hl
      · obtain rfl := List.mem_singleton.1 hmem
        have hapart := halone.apart hrun ht (Or.inr hl)
        rw [hl] at hapart
        exact hself hapart
    · rcases List.mem_append.1 hmem with hmem | hmem
      · exact hdone hmem
      · exact hrunning.1 (List.mem_singleton.1 hmem).symm
  | fail hrun =>
    rw [hrun, forall_mem_split] at hrunning honce
    exact ⟨hkept, hrunning.2, fun hmem => (honce hmem).2, hdone⟩

end Secured

/-! ## One after another -/

variable {m₀ τ : (k : K) → V k}

/-- From the store `m` what is left of a program does what the whole does from `τ`, as far as
it can see, and the whole leaves `τ` if it fails. -/
structure Tracks (T : Tasks E ε K V L) (τ : (k : K) → V k) (t : Future E ε L)
    (m : (k : K) → V k) : Prop where
  result : (t.prog.run T.cells.handler m).1 = ((T.body t.label).run T.cells.handler τ).1
  cells : ∀ k ∈ T.reads t.label,
    (t.prog.run T.cells.handler m).2 k = ((T.body t.label).run T.cells.handler τ).2 k
  clean : (T.body t.label).FailsClean T.cells τ

theorem stable_tracks (τ : (k : K) → V k) : T.Stable (T.Tracks τ) where
  frame t m m' hwithin hm h := by
    obtain ⟨hr, hc⟩ := Prog.run_congr hwithin hm
    exact ⟨hr ▸ h.result, fun k hk => by rw [← hc k hk, h.cells k hk], h.clean⟩
  next _ _ _ _ h := ⟨h.result, h.cells, h.clean⟩

/-- A program sees nothing of what changes outside its cells. -/
theorem Tracks.congr {t : Future E ε L} {m τ' : (k : K) → V k} (h : T.Tracks τ t m)
    (hτ : ∀ k ∈ T.reads t.label, τ k = τ' k) : T.Tracks τ' t m := by
  obtain ⟨hr, hc⟩ := Prog.run_congr (T.within t.label) hτ
  exact ⟨h.result.trans hr, fun k hk => (h.cells k hk).trans (hc k hk),
    h.clean.congr (T.within t.label) hτ⟩

/-- The store is that of the programs that returned, one after another, with what those that
run have done to it so far. -/
structure Serial (T : Tasks E ε K V L) (m₀ : (k : K) → V k) (s : Pool E ε K V L) : Prop where
  orderly : T.Orderly s
  tracks : ∀ t ∈ s.running, T.Tracks (T.serially m₀ s.done) t s.store
  untouched : ∀ k, (∀ t ∈ s.running, k ∉ T.writes t.label) → s.store k = T.serially m₀ s.done k

theorem serial_start (m₀ : (k : K) → V k) : T.Serial m₀ ⟨m₀, [], []⟩ :=
  ⟨⟨(fun _ h => nomatch h), (fun _ h => nomatch h), List.Pairwise.nil⟩, (fun _ h => nomatch h),
    fun _ _ => rfl⟩

/-- With nothing running the store is that of the programs that returned. -/
theorem Serial.eq_of_idle (h : T.Serial m₀ s) (hidle : s.running = []) :
    s.store = T.serially m₀ s.done := by
  funext k
  refine h.untouched k fun t ht => ?_
  rw [hidle] at ht
  cases ht

/-- A program that ended is replaced by what it does alone. -/
theorem Serial.leave {l : L} {x : Except ε Unit} (h : T.Serial m₀ s)
    (hrun : s.running = t₁ ++ ⟨l, .ofExcept x⟩ :: t₂) :
    ((T.body l).run T.cells.handler (T.serially m₀ s.done)).1 = x ∧
      (∀ t ∈ t₁ ++ t₂,
        T.Tracks ((T.body l).run T.cells.handler (T.serially m₀ s.done)).2 t s.store) ∧
      ∀ k, (∀ t ∈ t₁ ++ t₂, k ∉ T.writes t.label) →
        s.store k = ((T.body l).run T.cells.handler (T.serially m₀ s.done)).2 k := by
  have htracks := h.tracks
  rw [hrun, forall_mem_split] at htracks
  obtain ⟨hresult, hcells, -⟩ := htracks.1
  simp only [Prog.run_ofExcept] at hresult hcells
  have hkeep : ∀ k, k ∉ T.writes l →
      ((T.body l).run T.cells.handler (T.serially m₀ s.done)).2 k = T.serially m₀ s.done k :=
    fun k hk => Prog.run_confined (T.confined l) hk
  refine ⟨hresult.symm, fun t ht => (htracks.2 t ht).congr fun k hk => ?_, fun k hk => ?_⟩
  · refine (hkeep k fun hw => ?_).symm
    exact Set.disjoint_left.1 ((h.orderly.split hrun).1 t ht).1 hw hk
  · by_cases hw : k ∈ T.writes l
    · exact hcells k (T.writes_subset l hw)
    · rw [hkeep k hw]
      refine h.untouched k ?_
      rw [hrun]
      exact forall_mem_split.2 ⟨hw, hk⟩

/-- A step keeps the store serial, if a program that starts keeps apart and fails clean. -/
theorem Serial.step (h : T.Serial m₀ s) (ha : T.StartsApart s a)
    (hclean : ∀ l, a = some l → (T.body l).FailsClean T.cells s.store) (hs : T.Step s a s') :
    T.Serial m₀ s' := by
  -- What a program that starts may read was touched by none that runs.
  have hstart : ∀ l, a = some l →
      T.Tracks (T.serially m₀ s.done) ⟨l, T.body l⟩ s.store := by
    intro l hl
    have hsame : ∀ k ∈ T.reads l, s.store k = T.serially m₀ s.done k := fun k hk =>
      h.untouched k fun t ht hw => Set.disjoint_left.1 (ha l hl t ht).2 hw hk
    obtain ⟨hr, hc⟩ := Prog.run_congr (T.within l) hsame
    exact ⟨hr, hc, (hclean l hl).congr (T.within l) hsame⟩
  have horderly := h.orderly.step ha hs
  have htracks := (stable_tracks (T.serially m₀ s.done)).step h.orderly hs h.tracks hstart
  cases hs with
  | start l =>
    exact ⟨horderly, htracks, fun k hk => h.untouched k (List.forall_mem_append.1 hk).1⟩
  | @perform t₁ t₂ l o c hrun =>
    refine ⟨horderly, htracks, fun k hk => ?_⟩
    obtain ⟨hl, hothers⟩ := forall_mem_split.1 hk
    have hconfined := h.orderly.confined ⟨l, .op o c⟩ (by simp [hrun])
    refine (hconfined.1 s.store k hl).trans (h.untouched k ?_)
    rw [hrun]
    exact forall_mem_split.2 ⟨hl, hothers⟩
  | @ret t₁ t₂ l u hrun =>
    obtain ⟨-, hleft, huntouched⟩ := h.leave (x := .ok u) hrun
    rw [← serially_concat] at hleft huntouched
    exact ⟨horderly, hleft, huntouched⟩
  | @fail t₁ t₂ l e hrun =>
    obtain ⟨hresult, -, huntouched⟩ := h.leave (x := .error e) hrun
    have hfails := (h.tracks ⟨l, .fail e⟩ (by simp [hrun])).clean e hresult
    rw [hfails] at huntouched
    exact ⟨horderly, htracks, huntouched⟩

/-! ## Ever after -/

/-- What is left of a program keeps within `g`, and establishes `P` if it returns. -/
structure Promises (T : Tasks E ε K V L) (g : (k : K) → V k → V k → Prop)
    (P : L → ((k : K) → V k) → Prop) (t : Future E ε L) (m : (k : K) → V k) : Prop where
  grows : t.prog.Grows T.cells g m
  returns : ∀ u, (t.prog.run T.cells.handler m).1 = .ok u →
    P t.label (t.prog.run T.cells.handler m).2

/-- What the programs that returned have established holds, and those that run promise the
same. -/
structure Established (T : Tasks E ε K V L) (g : (k : K) → V k → V k → Prop)
    (P : L → ((k : K) → V k) → Prop) (s : Pool E ε K V L) : Prop where
  orderly : T.Orderly s
  promises : ∀ t ∈ s.running, T.Promises g P t s.store
  done : ∀ l ∈ s.done, P l s.store

section Established

variable {g : (k : K) → V k → V k → Prop} {P : L → ((k : K) → V k) → Prop}
variable (hg : ∀ k v, g k v v)
variable (hlocal : ∀ l m m', (∀ k ∈ T.reads l, m k = m' k) → P l m → P l m')
variable (hkept : ∀ l m m', (∀ k, g k (m k) (m' k)) → P l m → P l m')

include hg hlocal in
theorem stable_promises : T.Stable (T.Promises g P) where
  frame t m m' hwithin hm h := by
    obtain ⟨hr, hc⟩ := Prog.run_congr hwithin hm
    exact ⟨h.grows.congr hg hwithin hm, fun u hu => hlocal _ _ _ hc (h.returns u (hr.trans hu))⟩
  next _ _ _ _ h := ⟨h.grows.2, h.returns⟩

include hg hlocal hkept in
/-- A step keeps what is established, if a program that starts keeps apart and promises the
same. -/
theorem Established.step (h : T.Established g P s) (ha : T.StartsApart s a)
    (hstart : ∀ l, a = some l → T.Promises g P ⟨l, T.body l⟩ s.store) (hs : T.Step s a s') :
    T.Established g P s' := by
  refine ⟨h.orderly.step ha hs,
    (stable_promises hg hlocal).step h.orderly hs h.promises hstart, ?_⟩
  cases hs with
  | start l => exact h.done
  | @perform t₁ t₂ l o c hrun =>
    have hop := h.promises ⟨l, .op o c⟩ (by simp [hrun])
    exact fun l' hl' => hkept l' _ _ hop.grows.1 (h.done l' hl')
  | @ret t₁ t₂ l u hrun =>
    have hret := h.promises ⟨l, .ret u⟩ (by simp [hrun])
    exact List.forall_mem_append.2
      ⟨h.done, List.forall_mem_singleton.2 (hret.returns u rfl)⟩
  | fail hrun => exact h.done

end Established

end Tasks
