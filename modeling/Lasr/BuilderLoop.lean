import Lasr.Prog

/-!
# Loops with a shared builder

A loop that makes one value of each group of items with one builder. An item sets the field it
names, if its value is of the type of that field, and at the end of a group the value is built
if every field is set. The builder is never emptied, so what one group sets is there for the
groups after it.

So only the first group has to be complete (`FieldBuilder.loop_ok_iff`) : a later one that lacks a
field is filled in from those before. Where every group sets every field, each value is made of
its own group (`builderLoop_map`).
-/

set_option linter.unusedSectionVars false

variable {β ι φ ε γ : Type}

/-- Group after group with one builder. -/
def builderLoop (set : β → ι → Except ε β) (build : β → Except ε γ) :
    β → List (List ι) → Except ε (List γ)
  | _, [] => .ok []
  | b, items :: groups => do
    let b ← items.foldlM set b
    let x ← build b
    return x :: (← builderLoop set build b groups)

/-- The builder sets the fields that items name, and is complete with all of `fields`. -/
structure FieldBuilder (set : β → ι → Except ε β) (build : β → Except ε γ) (fields : List φ)
    (field : ι → φ) (good : ι → Prop) (has : β → φ → Prop) : Prop where
  set_ok_iff : ∀ b i, (∃ b', set b i = .ok b') ↔ good i
  has_set_iff : ∀ b i b' f, f ∈ fields → set b i = .ok b' → (has b' f ↔ has b f ∨ field i = f)
  build_ok_iff : ∀ b, (∃ x, build b = .ok x) ↔ ∀ f ∈ fields, has b f

namespace FieldBuilder

variable {set : β → ι → Except ε β} {build : β → Except ε γ} {fields : List φ} {field : ι → φ}
  {good : ι → Prop} {has : β → φ → Prop} {b b' : β} {items : List ι} {groups : List (List ι)}

theorem fill_ok_iff (h : FieldBuilder set build fields field good has) :
    (∃ b', items.foldlM set b = .ok b') ↔ ∀ i ∈ items, good i := by
  induction items generalizing b with
  | nil => simp [pure, Except.pure]
  | cons i items ih =>
    rw [List.forall_mem_cons, ← h.set_ok_iff b i, List.foldlM_cons]
    constructor
    · rintro ⟨b', hb'⟩
      obtain ⟨b₁, hi, hrest⟩ := Except.bind_eq_ok_iff.1 hb'
      exact ⟨⟨b₁, hi⟩, ih.1 ⟨b', hrest⟩⟩
    · rintro ⟨⟨b₁, hi⟩, hitems⟩
      obtain ⟨b', hb'⟩ := ih.2 hitems
      exact ⟨b', Except.bind_eq_ok_iff.2 ⟨b₁, hi, hb'⟩⟩

theorem has_fill_iff (h : FieldBuilder set build fields field good has) {f : φ}
    (hf : f ∈ fields) (hfill : items.foldlM set b = .ok b') :
    has b' f ↔ has b f ∨ ∃ i ∈ items, field i = f := by
  induction items generalizing b with
  | nil =>
    cases hfill
    simp
  | cons i items ih =>
    obtain ⟨b₁, hi, hrest⟩ := Except.bind_eq_ok_iff.1 hfill
    rw [ih hrest, h.has_set_iff b i b₁ f hf hi]
    simp only [List.mem_cons, exists_eq_or_imp, or_assoc]

/-- Once the builder is complete, all it takes is that the values are of the right types. -/
theorem loop_ok_iff_of_full (h : FieldBuilder set build fields field good has)
    (hb : ∀ f ∈ fields, has b f) :
    (∃ xs, builderLoop set build b groups = .ok xs) ↔ ∀ items ∈ groups, ∀ i ∈ items, good i := by
  induction groups generalizing b with
  | nil => simp [builderLoop]
  | cons items groups ih =>
    rw [List.forall_mem_cons, ← h.fill_ok_iff (b := b), builderLoop]
    constructor
    · rintro ⟨xs, hxs⟩
      obtain ⟨b₁, hfill, hxs⟩ := Except.bind_eq_ok_iff.1 hxs
      obtain ⟨x, -, hxs⟩ := Except.bind_eq_ok_iff.1 hxs
      obtain ⟨rest, hrest, -⟩ := Except.bind_eq_ok_iff.1 hxs
      have hb₁ : ∀ f ∈ fields, has b₁ f := fun f hf => (h.has_fill_iff hf hfill).2 (.inl (hb f hf))
      exact ⟨⟨b₁, hfill⟩, (ih hb₁).1 ⟨rest, hrest⟩⟩
    · rintro ⟨⟨b₁, hfill⟩, hgroups⟩
      have hb₁ : ∀ f ∈ fields, has b₁ f := fun f hf => (h.has_fill_iff hf hfill).2 (.inl (hb f hf))
      obtain ⟨x, hx⟩ := (h.build_ok_iff b₁).2 hb₁
      obtain ⟨rest, hrest⟩ := (ih hb₁).2 hgroups
      exact ⟨x :: rest, Except.bind_eq_ok_iff.2 ⟨b₁, hfill, Except.bind_eq_ok_iff.2
        ⟨x, hx, Except.bind_eq_ok_iff.2 ⟨rest, hrest, rfl⟩⟩⟩⟩

/-- From an empty builder, the first group has to be complete besides. -/
theorem loop_ok_iff (h : FieldBuilder set build fields field good has)
    (hb : ∀ f ∈ fields, ¬has b f) : (∃ xs, builderLoop set build b groups = .ok xs) ↔
      (∀ items ∈ groups, ∀ i ∈ items, good i) ∧
        ∀ first ∈ groups.head?, ∀ f ∈ fields, ∃ i ∈ first, field i = f := by
  cases groups with
  | nil => simp [builderLoop]
  | cons items groups =>
    rw [List.forall_mem_cons, ← h.fill_ok_iff (b := b), builderLoop]
    simp only [List.head?_cons, Option.mem_some_iff, forall_eq']
    constructor
    · rintro ⟨xs, hxs⟩
      obtain ⟨b₁, hfill, hxs⟩ := Except.bind_eq_ok_iff.1 hxs
      obtain ⟨x, hx, hxs⟩ := Except.bind_eq_ok_iff.1 hxs
      obtain ⟨rest, hrest, -⟩ := Except.bind_eq_ok_iff.1 hxs
      have hfull := (h.build_ok_iff b₁).1 ⟨x, hx⟩
      refine ⟨⟨⟨b₁, hfill⟩, (h.loop_ok_iff_of_full hfull).1 ⟨rest, hrest⟩⟩, fun f hf => ?_⟩
      exact ((h.has_fill_iff hf hfill).1 (hfull f hf)).resolve_left (hb f hf)
    · rintro ⟨⟨⟨b₁, hfill⟩, hgroups⟩, hfirst⟩
      have hfull : ∀ f ∈ fields, has b₁ f := fun f hf =>
        (h.has_fill_iff hf hfill).2 (.inr (hfirst f hf))
      obtain ⟨x, hx⟩ := (h.build_ok_iff b₁).2 hfull
      obtain ⟨rest, hrest⟩ := (h.loop_ok_iff_of_full hfull).2 hgroups
      exact ⟨x :: rest, Except.bind_eq_ok_iff.2 ⟨b₁, hfill, Except.bind_eq_ok_iff.2
        ⟨x, hx, Except.bind_eq_ok_iff.2 ⟨rest, hrest, rfl⟩⟩⟩⟩

/-- It fails if and only if a value is of the wrong type, or the first group lacks a field. -/
theorem loop_error_iff (h : FieldBuilder set build fields field good has)
    (hb : ∀ f ∈ fields, ¬has b f) : (∃ e, builderLoop set build b groups = .error e) ↔
      (∃ items ∈ groups, ∃ i ∈ items, ¬good i) ∨
        ∃ first ∈ groups.head?, ∃ f ∈ fields, ∀ i ∈ first, field i ≠ f := by
  have hok : (∃ xs, builderLoop set build b groups = .ok xs) ↔
      (∀ items ∈ groups, ∀ i ∈ items, good i) ∧
        ∀ first ∈ groups.head?, ∀ f ∈ fields, ∃ i ∈ first, field i = f := h.loop_ok_iff hb
  have hfails : (∃ e, builderLoop set build b groups = .error e) ↔
      ¬∃ xs, builderLoop set build b groups = .ok xs := by
    cases builderLoop set build b groups <;> simp
  rw [hfails, hok, not_and_or]
  push Not
  rfl

end FieldBuilder

/-- Where each group makes its value whatever the builder has, so does the loop. -/
theorem builderLoop_map {α : Type} {set : β → ι → Except ε β} {build : β → Except ε γ}
    {items : α → List ι} {value : α → γ}
    (h : ∀ b a, ∃ b', (items a).foldlM set b = .ok b' ∧ build b' = .ok (value a)) (b : β)
    (as : List α) : builderLoop set build b (as.map items) = .ok (as.map value) := by
  induction as generalizing b with
  | nil => rfl
  | cons a as ih =>
    obtain ⟨b', hfill, hbuild⟩ := h b a
    rw [List.map_cons, builderLoop]
    exact Except.bind_eq_ok_iff.2 ⟨b', hfill, Except.bind_eq_ok_iff.2
      ⟨value a, hbuild, Except.bind_eq_ok_iff.2 ⟨as.map value, ih b', rfl⟩⟩⟩
