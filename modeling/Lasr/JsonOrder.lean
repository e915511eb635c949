import Lasr.Codec
import Mathlib.Data.List.Nodup
import Mathlib.Data.List.Perm.Basic

/-!
# The order of members

The members of a JSON object have no order of their own : another writer may put them in another
one, at every level (`Json.Reorders`). A codec is `OrderFree` if it reads each of these for the
value that was written. The readers of structs, enums and ordered maps look members up by their
names, so codecs built from them have it from their parts.
-/

set_option linter.unusedSectionVars false

namespace Json

mutual

/-- The members of the objects are permuted, at every level. -/
def Reorders : Json → Json → Prop
  | .arr elems, j => ∃ elems', j = .arr elems' ∧ ReordersElems elems elems'
  | .obj members, j => ∃ members' members'', j = .obj members'' ∧
      ReordersMembers members members' ∧ members'.Perm members''
  | .null, j => j = .null
  | .bool b, j => j = .bool b
  | .num n, j => j = .num n
  | .str s, j => j = .str s

/-- Each element is reordered, in its place. -/
def ReordersElems : List Json → List Json → Prop
  | [], elems => elems = []
  | j :: elems, l => ∃ j' elems', l = j' :: elems' ∧ Reorders j j' ∧ ReordersElems elems elems'

/-- The value of each member is reordered, in its place. -/
def ReordersMembers : List (String × Json) → List (String × Json) → Prop
  | [], members => members = []
  | (k, j) :: members, l => ∃ j' members', l = (k, j') :: members' ∧ Reorders j j' ∧
      ReordersMembers members members'

end

variable {χ : Type} {j j' v : Json}

theorem reorders_str {s : String} : Reorders (.str s) j ↔ j = .str s := by
  rw [Reorders]

theorem reorders_null : Reorders .null j ↔ j = .null := by
  rw [Reorders]

theorem reorders_arr {elems : List Json} : Reorders (.arr elems) j ↔
    ∃ elems', j = .arr elems' ∧ ReordersElems elems elems' := by
  rw [Reorders]

theorem reorders_obj {members : List (String × Json)} : Reorders (.obj members) j ↔
    ∃ members' members'', j = .obj members'' ∧ ReordersMembers members members' ∧
      members'.Perm members'' := by
  rw [Reorders]

theorem reordersElems_cons {elems l : List Json} : ReordersElems (j :: elems) l ↔
    ∃ j' elems', l = j' :: elems' ∧ Reorders j j' ∧ ReordersElems elems elems' := by
  rw [ReordersElems]

theorem reordersMembers_cons {k : String} {members l : List (String × Json)} :
    ReordersMembers ((k, j) :: members) l ↔
      ∃ j' members', l = (k, j') :: members' ∧ Reorders j j' ∧
        ReordersMembers members members' := by
  rw [ReordersMembers]

mutual

/-- The order as it is written is one of them. -/
theorem Reorders.refl : ∀ j : Json, Reorders j j
  | .null => reorders_null.2 rfl
  | .bool b => by rw [Reorders]
  | .num n => by rw [Reorders]
  | .str s => reorders_str.2 rfl
  | .arr elems => reorders_arr.2 ⟨elems, rfl, ReordersElems.refl elems⟩
  | .obj members => reorders_obj.2 ⟨members, members, rfl, ReordersMembers.refl members, .refl _⟩

theorem ReordersElems.refl : ∀ elems : List Json, ReordersElems elems elems
  | [] => by rw [ReordersElems]
  | j :: elems => reordersElems_cons.2 ⟨j, elems, rfl, Reorders.refl j, ReordersElems.refl elems⟩

theorem ReordersMembers.refl : ∀ members : List (String × Json), ReordersMembers members members
  | [] => by rw [ReordersMembers]
  | (_, j) :: members =>
    reordersMembers_cons.2 ⟨j, members, rfl, Reorders.refl j, ReordersMembers.refl members⟩

end

/-! ## Fields and variants -/

theorem reordersElems_named {names : List String} : ∀ {members members' : List (String × Json)},
    ReordersMembers members members' →
      ReordersElems (named names members) (named names members')
  | [], members', h => by
    rw [ReordersMembers] at h
    subst h
    exact ReordersElems.refl []
  | (k, j) :: members, members', h => by
    obtain ⟨j', members', rfl, hj, hrest⟩ := reordersMembers_cons.1 h
    have ih : ReordersElems (named names members) (named names members') :=
      reordersElems_named hrest
    unfold named at ih ⊢
    by_cases hk : k ∈ names
    · rw [List.filter_cons_of_pos (by simpa using hk), List.filter_cons_of_pos (by simpa using hk)]
      exact reordersElems_cons.2 ⟨_, _, rfl, hj, ih⟩
    · rw [List.filter_cons_of_neg (by simpa using hk), List.filter_cons_of_neg (by simpa using hk)]
      exact ih

/-- What is found under the names is found in the reordered object, reordered. -/
theorem named_of_reorders (names : List String) {members : List (String × Json)}
    (h : Reorders (.obj members) j) : ∃ members', j = .obj members' ∧
      (named names members = [] → named names members' = []) ∧
        ∀ v, named names members = [v] → ∃ v', named names members' = [v'] ∧ Reorders v v' := by
  obtain ⟨members', members'', rfl, hmembers, hperm⟩ := reorders_obj.1 h
  have hnamed : ReordersElems (named names members) (named names members') :=
    reordersElems_named hmembers
  have hpermNamed : (named names members').Perm (named names members'') :=
    (hperm.filter _).map _
  refine ⟨members'', rfl, fun hnil => ?_, fun v hv => ?_⟩
  · rw [hnil, ReordersElems] at hnamed
    rw [hnamed] at hpermNamed
    exact List.nil_perm.1 hpermNamed
  · obtain ⟨v', rest, heq, hvv', hrest⟩ := reordersElems_cons.1 (hv ▸ hnamed)
    rw [ReordersElems] at hrest
    rw [heq, hrest] at hpermNamed
    exact ⟨v', (List.singleton_perm.1 hpermNamed).symm, hvv'⟩

theorem Reorders.field {names : List String} (h : Reorders j j')
    (hj : j.field (χ := χ) names = .ok v) :
    ∃ v', j'.field (χ := χ) names = .ok v' ∧ Reorders v v' := by
  cases j with
  | obj members =>
    obtain ⟨members', rfl, -, hone⟩ := named_of_reorders names h
    unfold Json.field at hj ⊢
    dsimp only at hj ⊢
    rcases hn : named names members with _ | ⟨v₀, _ | ⟨v₁, l⟩⟩
    · rw [hn] at hj
      cases hj
    · rw [hn] at hj
      cases hj
      obtain ⟨v', hv', hvv'⟩ := hone v hn
      rw [hv']
      exact ⟨v', rfl, hvv'⟩
    · rw [hn] at hj
      cases hj
  | _ => cases hj

theorem Reorders.fieldOrNull {names : List String} (h : Reorders j j')
    (hj : j.fieldOrNull (χ := χ) names = .ok v) :
    ∃ v', j'.fieldOrNull (χ := χ) names = .ok v' ∧ Reorders v v' := by
  cases j with
  | obj members =>
    obtain ⟨members', rfl, hnone, hone⟩ := named_of_reorders names h
    unfold Json.fieldOrNull at hj ⊢
    dsimp only at hj ⊢
    rcases hn : named names members with _ | ⟨v₀, _ | ⟨v₁, l⟩⟩
    · rw [hn] at hj
      cases hj
      rw [hnone hn]
      exact ⟨.null, rfl, Reorders.refl _⟩
    · rw [hn] at hj
      cases hj
      obtain ⟨v', hv', hvv'⟩ := hone v hn
      rw [hv']
      exact ⟨v', rfl, hvv'⟩
    · rw [hn] at hj
      cases hj
  | _ => cases hj

theorem Reorders.variant {tag : String} (h : Reorders j j')
    (hj : j.variant (χ := χ) = .ok (tag, v)) :
    ∃ v', j'.variant (χ := χ) = .ok (tag, v') ∧ Reorders v v' := by
  unfold Json.variant at hj
  split at hj
  · next s =>
    cases hj
    obtain rfl := reorders_str.1 h
    exact ⟨.null, rfl, Reorders.refl _⟩
  · next t payload =>
    cases hj
    obtain ⟨members', members'', rfl, hmembers, hperm⟩ := reorders_obj.1 h
    obtain ⟨v', rest, rfl, hv, hrest⟩ := reordersMembers_cons.1 hmembers
    rw [ReordersMembers] at hrest
    subst hrest
    obtain rfl := List.singleton_perm.1 hperm
    exact ⟨v', rfl, hv⟩
  · cases hj

end Json

/-! ## Codecs that do not mind -/

section OrderFree

variable {χ α β : Type}

/-- The codec reads a value in whatever order the members are. -/
def Codec.OrderFree (c : Codec χ α) : Prop :=
  ∀ a j, (c.ser a).Reorders j → c.de j = .ok a

namespace Codec.OrderFree

variable {c : Codec χ α}

/-- Text has no members. -/
theorem of_text (h : ∀ a, ∃ s, c.ser a = .str s) : c.OrderFree := by
  intro a j hj
  obtain ⟨s, hs⟩ := h a
  rw [hs, Json.reorders_str] at hj
  rw [hj, ← hs]
  exact c.de_ser a

theorem value (c : TextCodec χ α) : c.value.OrderFree := of_text fun a => ⟨c.ser a, rfl⟩

theorem retract {f : β → α} {g : α → Except (DeError χ) β} {h : ∀ b, g (f b) = .ok b}
    (hc : c.OrderFree) : (c.retract f g h).OrderFree := by
  intro b j hj
  change c.de j >>= g = _
  rw [hc (f b) j hj]
  exact h b

theorem mapM_de (hc : c.OrderFree) : ∀ {l : List α} {elems : List Json},
    Json.ReordersElems (l.map c.ser) elems → elems.mapM c.de = .ok l
  | [], elems, h => by
    rw [List.map_nil, Json.ReordersElems] at h
    subst h
    rfl
  | a :: l, elems, h => by
    obtain ⟨j', elems', rfl, hj, hrest⟩ := Json.reordersElems_cons.1 h
    rw [List.mapM_cons, hc a j' hj, mapM_de hc hrest]
    rfl

theorem list (hc : c.OrderFree) : c.list.OrderFree := by
  intro l j h
  obtain ⟨elems', rfl, helems⟩ := Json.reorders_arr.1 h
  exact hc.mapM_de helems

theorem option {h : ∀ a, c.ser a ≠ .null} (hc : c.OrderFree) : (c.option h).OrderFree := by
  intro x j hj
  cases x with
  | none =>
    obtain rfl := Json.reorders_null.1 hj
    rfl
  | some a =>
    have hread : some <$> c.de j = .ok (some a) := by
      rw [hc a j hj]
      rfl
    cases j with
    | null =>
      exfalso
      refine h a ?_
      change (c.ser a).Reorders .null at hj
      generalize c.ser a = j at hj
      cases j with
      | null => rfl
      | arr elems =>
        obtain ⟨_, he, -⟩ := Json.reorders_arr.1 hj
        cases he
      | obj members =>
        obtain ⟨_, _, he, -⟩ := Json.reorders_obj.1 hj
        cases he
      | _ =>
        rw [Json.Reorders] at hj
        cases hj
    | _ => exact hread

theorem pair {d : Codec χ β} (hc : c.OrderFree) (hd : d.OrderFree) : (c.pair d).OrderFree := by
  intro x j h
  obtain ⟨elems, rfl, helems⟩ := Json.reorders_arr.1 h
  obtain ⟨j₁, elems, rfl, hj₁, helems⟩ := Json.reordersElems_cons.1 helems
  obtain ⟨j₂, elems, rfl, hj₂, helems⟩ := Json.reordersElems_cons.1 helems
  rw [Json.ReordersElems] at helems
  subst helems
  change (do return (← c.de j₁, ← d.de j₂)) = _
  rw [hc x.1 j₁ hj₁, hd x.2 j₂ hj₂]
  rfl

/-- A field is found wherever it is. -/
theorem field {names : List String} {j j' : Json} {a : α} (hc : c.OrderFree) (h : j.Reorders j')
    (hj : j.field (χ := χ) names = .ok (c.ser a)) : c.field names j' = .ok a := by
  obtain ⟨v, hv, hreorders⟩ := h.field hj
  rw [Codec.field, hv]
  exact hc a v hreorders

theorem fieldOrNull {names : List String} {j j' : Json} {a : α} (hc : c.OrderFree)
    (h : j.Reorders j') (hj : j.fieldOrNull (χ := χ) names = .ok (c.ser a)) :
    c.fieldOrNull names j' = .ok a := by
  obtain ⟨v, hv, hreorders⟩ := h.fieldOrNull hj
  rw [Codec.fieldOrNull, hv]
  exact hc a v hreorders

end Codec.OrderFree

/-! ## Ordered maps -/

namespace OrderedMap

variable {K V : Type} [LinearOrder K]

theorem get_empty (k : K) : (empty : OrderedMap K V).get k = none := rfl

theorem mem_insertEntry_iff {k : K} {v : V} {e : K × V} : ∀ {l : List (K × V)},
    l.Pairwise (fun e e' => e.1 < e'.1) →
      (e ∈ insertEntry k v l ↔ e = (k, v) ∨ (e ∈ l ∧ e.1 ≠ k))
  | [], _ => by simp [insertEntry]
  | e' :: l, h => by
    obtain ⟨hhead, htail⟩ := List.pairwise_cons.1 h
    have ih := mem_insertEntry_iff (k := k) (v := v) (e := e) htail
    unfold insertEntry
    split_ifs with hlt heq
    · have hne : ∀ e'' ∈ e' :: l, e''.1 ≠ k := by
        intro e'' he''
        rcases List.mem_cons.1 he'' with rfl | he''
        · exact ne_of_gt hlt
        · exact ne_of_gt (lt_trans hlt (hhead e'' he''))
      rw [List.mem_cons]
      exact or_congr_right ⟨fun he => ⟨he, hne e he⟩, fun he => he.1⟩
    · subst heq
      rw [List.mem_cons]
      refine or_congr_right ⟨fun he => ⟨List.mem_cons_of_mem _ he, ne_of_gt (hhead e he)⟩,
        fun he => ?_⟩
      rcases List.mem_cons.1 he.1 with rfl | he'
      · exact absurd rfl he.2
      · exact he'
    · rw [List.mem_cons, ih, List.mem_cons]
      constructor
      · rintro (rfl | rfl | ⟨he, hk⟩)
        · exact Or.inr ⟨Or.inl rfl, fun hk => heq hk.symm⟩
        · exact Or.inl rfl
        · exact Or.inr ⟨Or.inr he, hk⟩
      · rintro (rfl | ⟨rfl | he, hk⟩)
        · exact Or.inr (Or.inl rfl)
        · exact Or.inl rfl
        · exact Or.inr (Or.inr ⟨he, hk⟩)

theorem get_insert (m : OrderedMap K V) (k : K) (v : V) (k' : K) :
    (m.insert k v).get k' = if k' = k then some v else m.get k' := by
  refine Option.ext fun v' => ?_
  rw [← mem_entries_iff, show (m.insert k v).entries = insertEntry k v m.entries from rfl,
    mem_insertEntry_iff m.sorted]
  split_ifs with hk
  · subst hk
    simp [eq_comm]
  · rw [mem_entries_iff]
    simp [hk]

/-- Of entries with different keys each is found. -/
theorem get_foldl_insert : ∀ {l : List (K × V)} {m : OrderedMap K V} {k : K},
    (l.map Prod.fst).Nodup → (l.foldl (fun m e => m.insert e.1 e.2) m).get k =
      ((l.find? fun e => decide (e.1 = k)).map Prod.snd).or (m.get k)
  | [], m, k, _ => rfl
  | e :: l, m, k, h => by
    rw [List.map_cons, List.nodup_cons] at h
    rw [List.foldl_cons, get_foldl_insert h.2, get_insert]
    by_cases hk : e.1 = k
    · have hnone : l.find? (fun e => decide (e.1 = k)) = none := by
        refine List.find?_eq_none.2 fun e' he' hkey => h.1 ?_
        rw [hk, ← of_decide_eq_true hkey]
        exact List.mem_map_of_mem he'
      rw [List.find?_cons_of_pos (by simpa using hk), hnone, if_pos hk.symm]
      rfl
    · rw [List.find?_cons_of_neg (by simpa using hk), if_neg fun he => hk he.symm]

/-- The order in which the entries are inserted does not matter. -/
theorem ofEntries_of_perm {m : OrderedMap K V} {l : List (K × V)} (h : m.entries.Perm l) :
    ofEntries l = m := by
  have hnodup : (m.entries.map Prod.fst).Nodup :=
    List.pairwise_map.2 (m.sorted.imp fun hlt => ne_of_lt hlt)
  have hnodup' : (l.map Prod.fst).Nodup := (h.map Prod.fst).nodup_iff.1 hnodup
  refine ext_get fun k => Option.ext fun v => ?_
  rw [ofEntries, get_foldl_insert hnodup', get_empty, Option.or_none, ← mem_entries_iff,
    h.mem_iff, Option.map_eq_some_iff]
  constructor
  · rintro ⟨e, he, rfl⟩
    have hkey : e.1 = k := by simpa using List.find?_some he
    subst hkey
    exact List.mem_of_find?_eq_some he
  · intro hmem
    cases he : l.find? (fun e => decide (e.1 = k)) with
    | none => simpa using List.find?_eq_none.1 he (k, v) hmem
    | some e =>
      have hkey : e.1 = k := by simpa using List.find?_some he
      have hsame : e = (k, v) := List.inj_on_of_nodup_map hnodup' (List.mem_of_find?_eq_some he)
        hmem hkey
      exact ⟨e, rfl, by rw [hsame]⟩

variable {χ : Type}

theorem mapM_member {kc : TextCodec χ K} {vc : Codec χ V} (hv : vc.OrderFree) :
    ∀ {l : List (K × V)} {members : List (String × Json)},
      Json.ReordersMembers (l.map fun e => (kc.ser e.1, vc.ser e.2)) members →
        members.mapM (Codec.member kc vc) = .ok l
  | [], members, h => by
    rw [List.map_nil, Json.ReordersMembers] at h
    subst h
    rfl
  | e :: l, members, h => by
    obtain ⟨j', members', rfl, hj, hrest⟩ := Json.reordersMembers_cons.1 h
    have hone : Codec.member kc vc (kc.ser e.1, j') = .ok e := by
      unfold Codec.member
      rw [kc.de_ser, hv e.2 j' hj]
      rfl
    rw [List.mapM_cons, hone, mapM_member hv hrest]
    rfl

/-- What is read of permuted members is permuted in the same way. -/
theorem mapM_perm {α β ε : Type} {f : α → Except ε β} {l l' : List α} (h : l.Perm l') :
    ∀ {r : List β}, l.mapM f = .ok r → ∃ r', l'.mapM f = .ok r' ∧ r.Perm r' := by
  induction h with
  | nil => exact fun hr => ⟨_, hr, .refl _⟩
  | cons a _ ih =>
    intro r hr
    rw [List.mapM_cons] at hr ⊢
    cases ha : f a with
    | error e =>
      rw [ha] at hr
      cases hr
    | ok b =>
      rw [ha] at hr
      rename_i l₁ l₂ _
      cases hl : l₁.mapM f with
      | error e =>
        rw [hl] at hr
        cases hr
      | ok bs =>
        rw [hl] at hr
        cases hr
        obtain ⟨bs', hbs', hperm⟩ := ih hl
        rw [hbs']
        exact ⟨_, rfl, hperm.cons b⟩
  | swap a b l =>
    intro r hr
    rw [List.mapM_cons, List.mapM_cons] at hr ⊢
    cases ha : f a with
    | error e =>
      cases hb : f b with
      | error e' =>
        rw [hb] at hr
        cases hr
      | ok y =>
        rw [ha, hb] at hr
        cases hr
    | ok x =>
      cases hb : f b with
      | error e =>
        rw [hb] at hr
        cases hr
      | ok y =>
        rw [ha, hb] at hr
        cases hl : l.mapM f with
        | error e =>
          rw [hl] at hr
          cases hr
        | ok bs =>
          rw [hl] at hr
          cases hr
          exact ⟨_, rfl, .swap _ _ _⟩
  | trans _ _ ih₁ ih₂ =>
    intro r hr
    obtain ⟨r₁, hr₁, h₁⟩ := ih₁ hr
    obtain ⟨r₂, hr₂, h₂⟩ := ih₂ hr₁
    exact ⟨r₂, hr₂, h₁.trans h₂⟩

/-- A map is read in whatever order its members are. -/
theorem codec_orderFree (kc : TextCodec χ K) {vc : Codec χ V} (hv : vc.OrderFree) :
    (codec kc vc).OrderFree := by
  intro m j h
  obtain ⟨members', members'', rfl, hmembers, hperm⟩ := Json.reorders_obj.1 h
  obtain ⟨l, hl, hentries⟩ := mapM_perm hperm (mapM_member hv hmembers)
  change members''.mapM (Codec.member kc vc) >>= _ = _
  rw [hl]
  exact congrArg Except.ok (ofEntries_of_perm hentries)

/-- A set is a sequence. -/
theorem setCodec_orderFree {kc : Codec χ K} (hk : kc.OrderFree) : (setCodec kc).OrderFree :=
  hk.list.retract

end OrderedMap

end OrderFree
