import Mathlib.Data.List.Basic
import Mathlib.Order.Lattice
import Mathlib.Tactic.Common

/-!
# Codecs over JSON values

A value is written as a JSON tree and read back from one. A `Codec` carries the two functions
and its law, that a value comes back as it was written, so a codec built from others needs no
proof of its own beyond the step that puts them together.

Object keys are text, and a type that can be a key has a `TextCodec`. Maps with ordered keys
are kept as their sorted entries (`OrderedMap`) : they are written in that order, and read by
inserting one entry after another.

`Json.field` and `Json.variant` are how a struct and an externally tagged enum are read.
-/

set_option linter.unusedSectionVars false

/-! ## JSON values -/

/-- A JSON value whose numbers are integers. An object has its members in the order they are
written. -/
inductive Json where
  | null
  | bool (b : Bool)
  | num (n : Int)
  | str (s : String)
  | arr (elems : List Json)
  | obj (members : List (String × Json))

/-- Why a value is not read, where a reader may have errors of its own. -/
inductive DeError (χ : Type) where
  | invalidType
  | missingField
  | duplicateField
  | unknownVariant
  | custom (e : χ)

section Read

variable {χ : Type}

namespace Json

/-- The members of an object that have one of the names. -/
def named (names : List String) (members : List (String × Json)) : List Json :=
  (members.filter fun m => decide (m.1 ∈ names)).map Prod.snd

/-- The field of a struct, under its name or an alias. -/
def field (names : List String) : Json → Except (DeError χ) Json
  | .obj members =>
    match named names members with
    | [j] => .ok j
    | [] => .error .missingField
    | _ => .error .duplicateField
  | _ => .error .invalidType

/-- The field of a struct that may be left out, and is null then. -/
def fieldOrNull (names : List String) : Json → Except (DeError χ) Json
  | .obj members =>
    match named names members with
    | [j] => .ok j
    | [] => .ok .null
    | _ => .error .duplicateField
  | _ => .error .invalidType

/-- The tag of an externally tagged enum, and its payload. The tag alone stands for a variant
without one. -/
def variant : Json → Except (DeError χ) (String × Json)
  | .str tag => .ok (tag, .null)
  | .obj [(tag, payload)] => .ok (tag, payload)
  | _ => .error .invalidType

end Json

/-! ## Codecs -/

/-- A codec for text. -/
structure TextCodec (χ α : Type) where
  ser : α → String
  de : String → Except (DeError χ) α
  de_ser : ∀ a, de (ser a) = .ok a

/-- A codec for JSON values. -/
structure Codec (χ α : Type) where
  ser : α → Json
  de : Json → Except (DeError χ) α
  de_ser : ∀ a, de (ser a) = .ok a

attribute [simp] TextCodec.de_ser Codec.de_ser

variable {α β : Type}

/-- What is read back is written in one way only. -/
theorem Codec.ser_injective (c : Codec χ α) : Function.Injective c.ser := by
  intro a a' h
  have hread := c.de_ser a
  rw [h, c.de_ser] at hread
  exact (Except.ok.inj hread).symm

/-- Text as it is. -/
def TextCodec.string : TextCodec χ String where
  ser := id
  de := .ok
  de_ser _ := rfl

/-- Text as a JSON value. -/
def TextCodec.value (c : TextCodec χ α) : Codec χ α where
  ser a := .str (c.ser a)
  de
    | .str s => c.de s
    | _ => .error .invalidType
  de_ser := c.de_ser

namespace Codec

/-- Write a value as another one, and read it off that. -/
def retract (c : Codec χ β) (f : α → β) (g : β → Except (DeError χ) α) (h : ∀ a, g (f a) = .ok a) :
    Codec χ α where
  ser a := c.ser (f a)
  de j := c.de j >>= g
  de_ser a := by
    rw [c.de_ser]
    exact h a

theorem mapM_de_ser (c : Codec χ α) : ∀ l : List α, (l.map c.ser).mapM c.de = .ok l
  | [] => rfl
  | a :: l => by
    rw [List.map_cons, List.mapM_cons, c.de_ser, mapM_de_ser c l]
    rfl

/-- A sequence. -/
def list (c : Codec χ α) : Codec χ (List α) where
  ser l := .arr (l.map c.ser)
  de
    | .arr l => l.mapM c.de
    | _ => .error .invalidType
  de_ser := c.mapM_de_ser

/-- A value that may be absent, of a type that is never written as null. -/
def option (c : Codec χ α) (h : ∀ a, c.ser a ≠ .null) : Codec χ (Option α) where
  ser
    | some a => c.ser a
    | none => .null
  de
    | .null => .ok none
    | j => some <$> c.de j
  de_ser
    | none => rfl
    | some a => by
      have hread : some <$> c.de (c.ser a) = .ok (some a) := by
        rw [c.de_ser]
        rfl
      have hne := h a
      dsimp only
      generalize c.ser a = j at hread hne
      cases j with
      | null => exact absurd rfl hne
      | _ => exact hread

/-- A pair, as a sequence of two. -/
def pair (c : Codec χ α) (d : Codec χ β) : Codec χ (α × β) where
  ser x := .arr [c.ser x.1, d.ser x.2]
  de
    | .arr [j, j'] => do return (← c.de j, ← d.de j')
    | _ => .error .invalidType
  de_ser x := by
    dsimp only
    rw [c.de_ser, d.de_ser]
    rfl

/-- One member of an object. -/
def member (kc : TextCodec χ α) (vc : Codec χ β) (m : String × Json) :
    Except (DeError χ) (α × β) := do
  let k ← kc.de m.1
  let v ← vc.de m.2
  return (k, v)

/-- The members of an object, in order. -/
def members (kc : TextCodec χ α) (vc : Codec χ β) : Codec χ (List (α × β)) where
  ser l := .obj (l.map fun e => (kc.ser e.1, vc.ser e.2))
  de
    | .obj l => l.mapM (member kc vc)
    | _ => .error .invalidType
  de_ser l := by
    have hone : ∀ e : α × β, member kc vc (kc.ser e.1, vc.ser e.2) = .ok e := by
      intro e
      unfold member
      rw [kc.de_ser, vc.de_ser]
      rfl
    dsimp only
    induction l with
    | nil => rfl
    | cons e l ih =>
      rw [List.map_cons, List.mapM_cons, hone, ih]
      rfl

/-- A field of a struct. -/
def field (c : Codec χ α) (names : List String) (j : Json) : Except (DeError χ) α :=
  j.field names >>= c.de

/-- A field that may be left out. -/
def fieldOrNull (c : Codec χ α) (names : List String) (j : Json) : Except (DeError χ) α :=
  j.fieldOrNull names >>= c.de

end Codec

end Read

/-! ## Maps with ordered keys -/

/-- A map, as its entries in the order of their keys. -/
structure OrderedMap (K V : Type) [LinearOrder K] where
  entries : List (K × V)
  sorted : entries.Pairwise fun e e' => e.1 < e'.1

namespace OrderedMap

variable {K V : Type} [LinearOrder K]

/-- Put an entry in its place. -/
def insertEntry (k : K) (v : V) : List (K × V) → List (K × V)
  | [] => [(k, v)]
  | e :: l =>
    if k < e.1 then (k, v) :: e :: l
    else if k = e.1 then (k, v) :: l
    else e :: insertEntry k v l

theorem mem_insertEntry {k : K} {v : V} {e : K × V} : ∀ {l : List (K × V)},
    e ∈ insertEntry k v l → e = (k, v) ∨ e ∈ l
  | [], h => Or.inl (List.mem_singleton.1 h)
  | e' :: l, h => by
    unfold insertEntry at h
    split_ifs at h with hlt heq
    · simpa using h
    · rcases List.mem_cons.1 h with h | h
      · exact Or.inl h
      · exact Or.inr (List.mem_cons_of_mem _ h)
    · rcases List.mem_cons.1 h with h | h
      · exact Or.inr (h ▸ List.mem_cons_self)
      · exact (mem_insertEntry h).imp_right (List.mem_cons_of_mem _)

theorem sorted_insertEntry {k : K} {v : V} : ∀ {l : List (K × V)},
    l.Pairwise (fun e e' => e.1 < e'.1) → (insertEntry k v l).Pairwise fun e e' => e.1 < e'.1
  | [], _ => List.pairwise_singleton _ _
  | e :: l, h => by
    obtain ⟨hhead, htail⟩ := List.pairwise_cons.1 h
    unfold insertEntry
    split_ifs with hlt heq
    · refine List.pairwise_cons.2 ⟨fun e' he' => ?_, h⟩
      rcases List.mem_cons.1 he' with rfl | he'
      · exact hlt
      · exact lt_trans hlt (hhead e' he')
    · exact List.pairwise_cons.2 ⟨fun e' he' => heq ▸ hhead e' he', htail⟩
    · refine List.pairwise_cons.2 ⟨fun e' he' => ?_, sorted_insertEntry htail⟩
      rcases mem_insertEntry he' with rfl | he'
      · exact lt_of_le_of_ne (not_lt.1 hlt) (Ne.symm heq)
      · exact hhead e' he'

/-- The map without entries. -/
def empty : OrderedMap K V := ⟨[], List.Pairwise.nil⟩

/-- `insert`. -/
def insert (m : OrderedMap K V) (k : K) (v : V) : OrderedMap K V :=
  ⟨insertEntry k v m.entries, sorted_insertEntry m.sorted⟩

/-- Insert entries one after another. -/
def ofEntries (l : List (K × V)) : OrderedMap K V :=
  l.foldl (fun m e => m.insert e.1 e.2) empty

/-- `get`. -/
def get (m : OrderedMap K V) (k : K) : Option V :=
  (m.entries.find? fun e => decide (e.1 = k)).map Prod.snd

theorem ext {m m' : OrderedMap K V} (h : m.entries = m'.entries) : m = m' := by
  cases m
  cases m'
  cases h
  rfl

theorem insertEntry_of_lt {k : K} {v : V} : ∀ {l : List (K × V)}, (∀ e ∈ l, e.1 < k) →
    insertEntry k v l = l ++ [(k, v)]
  | [], _ => rfl
  | e :: l, h => by
    have he := h e List.mem_cons_self
    rw [insertEntry, if_neg (lt_asymm he), if_neg (ne_of_gt he),
      insertEntry_of_lt fun e' he' => h e' (List.mem_cons_of_mem _ he')]
    rfl

theorem entries_foldl_insert : ∀ {l : List (K × V)} {m : OrderedMap K V},
    (m.entries ++ l).Pairwise (fun e e' => e.1 < e'.1) →
      (l.foldl (fun m e => m.insert e.1 e.2) m).entries = m.entries ++ l
  | [], m, _ => (List.append_nil _).symm
  | e :: l, m, h => by
    have hlt : ∀ e' ∈ m.entries, e'.1 < e.1 := fun e' he' =>
      (List.pairwise_append.1 h).2.2 e' he' e List.mem_cons_self
    have hins : (m.insert e.1 e.2).entries = m.entries ++ [e] := insertEntry_of_lt hlt
    have hsplit : (m.insert e.1 e.2).entries ++ l = m.entries ++ e :: l := by
      rw [hins, List.append_assoc, List.singleton_append]
    rw [List.foldl_cons, entries_foldl_insert (hsplit ▸ h), hsplit]

/-- The entries of a map make up the map. -/
theorem ofEntries_entries (m : OrderedMap K V) : ofEntries m.entries = m :=
  ext (entries_foldl_insert m.sorted)

theorem mem_entries_iff {m : OrderedMap K V} {k : K} {v : V} :
    (k, v) ∈ m.entries ↔ m.get k = some v := by
  obtain ⟨entries, sorted⟩ := m
  unfold get
  induction entries with
  | nil => simp
  | cons e l ih =>
    obtain ⟨hhead, htail⟩ := List.pairwise_cons.1 sorted
    by_cases hk : e.1 = k
    · -- the head is the only entry with its key
      have hnot : (k, v) ∉ l := fun hmem => absurd (hhead (k, v) hmem) (hk ▸ lt_irrefl k)
      subst hk
      simp [hnot, Prod.ext_iff, eq_comm]
    · have hne : (k, v) ≠ e := fun he => hk (he ▸ rfl)
      simpa [List.find?_cons, hk, hne] using ih htail

/-- A map is determined by its lookups. -/
theorem ext_get {m m' : OrderedMap K V} (h : ∀ k, m.get k = m'.get k) : m = m' := by
  have hnodup : ∀ m : OrderedMap K V, m.entries.Nodup := fun m =>
    m.sorted.imp fun hlt he => absurd (he ▸ hlt) (lt_irrefl _)
  have hperm : m.entries.Perm m'.entries := by
    refine (List.perm_ext_iff_of_nodup (hnodup m) (hnodup m')).2 fun e => ?_
    rw [show e = (e.1, e.2) from rfl, mem_entries_iff, mem_entries_iff, h]
  have hanti : ∀ e e' : K × V, e ∈ m.entries → e' ∈ m'.entries → e.1 < e'.1 → e'.1 < e.1 →
      e = e' := fun _ _ _ _ hlt hgt => absurd (lt_trans hlt hgt) (lt_irrefl _)
  exact ext (hperm.eq_of_pairwise hanti m.sorted m'.sorted)

/-- A set is determined by its elements. -/
theorem eq_of_keys {m m' : OrderedMap K Unit}
    (h : ∀ k, k ∈ m.entries.map Prod.fst ↔ k ∈ m'.entries.map Prod.fst) : m = m' := by
  have hmem : ∀ (m : OrderedMap K Unit) (k : K),
      k ∈ m.entries.map Prod.fst ↔ m.get k = some () := by
    intro m k
    rw [← mem_entries_iff, List.mem_map]
    exact ⟨fun ⟨e, he, hk⟩ => hk ▸ he, fun he => ⟨_, he, rfl⟩⟩
  refine ext_get fun k => Option.ext fun u => ?_
  rw [show u = () from rfl, ← hmem, ← hmem, h]

variable {χ : Type}

/-- A map is written as an object. -/
def codec (kc : TextCodec χ K) (vc : Codec χ V) : Codec χ (OrderedMap K V) :=
  (Codec.members kc vc).retract entries (fun l => .ok (ofEntries l)) fun m =>
    congrArg Except.ok m.ofEntries_entries

/-- A set is written as a sequence. -/
def setCodec (kc : Codec χ K) : Codec χ (OrderedMap K Unit) :=
  (Codec.list kc).retract (fun m => m.entries.map Prod.fst)
    (fun l => .ok (ofEntries (l.map fun k => (k, ())))) fun m => by
      have hmap : (m.entries.map Prod.fst).map (fun k => (k, ())) = m.entries := by
        rw [List.map_map]
        exact List.map_id m.entries
      rw [hmap, ofEntries_entries]

end OrderedMap
