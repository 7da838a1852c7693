import Mathlib.Data.List.Sort
import Mathlib.Data.String.Basic
import ShorthandSchema.Json.Basic

/-! # Members: objects in the order of their keys

An object that is built from entries lists them by key. Two lists in this order are equal as soon
as they have the same value under every key.

* `ofMembers_eq_object_iff`: which list an object has that is built from entries with distinct
  names.
* `insertAll_insertAll`: insertions that are made again change nothing, whatever the order of the
  list.
* `insertAll_perm`: insertions under distinct names can be made in any order. -/

namespace ShorthandSchema

/-! ### Entries with distinct names -/

theorem lookup_eq_some_iff_mem {α : Type} {entries : List (String × α)}
    (h : (entries.map (·.1)).Nodup) {name : String} {value : α} :
    entries.lookup name = some value ↔ (name, value) ∈ entries := by
  induction entries with
  | nil => simp
  | cons e rest ih =>
    obtain ⟨first, v⟩ := e
    obtain ⟨hn, hr⟩ := List.nodup_cons.mp h
    rw [lookup_cons_ite, List.mem_cons]
    split_ifs with hf
    · subst hf
      have hrest : (name, value) ∉ rest := fun hm => hn (List.mem_map.mpr ⟨_, hm, rfl⟩)
      simp [hrest, eq_comm]
    · rw [ih hr]
      simp [hf]

theorem lookup_eq_none_iff_notMem {α : Type} {entries : List (String × α)} {name : String} :
    entries.lookup name = none ↔ name ∉ entries.map (·.1) := by
  induction entries with
  | nil => simp
  | cons e rest ih =>
    rw [lookup_cons_ite, List.map_cons, List.mem_cons]
    split_ifs with hf
    · simp [hf]
    · rw [ih]
      simp [hf]

namespace Json

/-! ### The order of keys -/

/-- Members that are listed by key, each key once. -/
def KeyOrdered (members : List (String × Json)) : Prop := members.Pairwise fun a b => a.1 < b.1

theorem KeyOrdered.nodup {members : List (String × Json)} (h : KeyOrdered members) :
    (members.map (·.1)).Nodup := by
  rw [List.Nodup, List.pairwise_map]
  exact h.imp fun hlt => ne_of_lt hlt

theorem mem_insertMember {key : String} {value : Json} {members : List (String × Json)}
    {m : String × Json} (h : m ∈ insertMember key value members) :
    m = (key, value) ∨ m ∈ members := by
  induction members with
  | nil => exact Or.inl (List.mem_singleton.mp h)
  | cons first rest ih =>
    unfold insertMember at h
    split_ifs at h with he hlt
    · rcases List.mem_cons.mp h with h | h
      · exact Or.inl h
      · exact Or.inr (List.mem_cons_of_mem _ h)
    · rcases List.mem_cons.mp h with h | h
      · exact Or.inl h
      · exact Or.inr h
    · rcases List.mem_cons.mp h with h | h
      · exact Or.inr (h ▸ List.mem_cons_self)
      · exact (ih h).imp id (List.mem_cons_of_mem _)

theorem keyOrdered_insertMember (key : String) (value : Json) {members : List (String × Json)}
    (h : KeyOrdered members) : KeyOrdered (insertMember key value members) := by
  induction members with
  | nil => exact List.pairwise_singleton _ _
  | cons first rest ih =>
    obtain ⟨hf, hr⟩ := List.pairwise_cons.mp h
    unfold insertMember
    split_ifs with he hlt
    · subst he
      exact List.pairwise_cons.mpr ⟨hf, hr⟩
    · refine List.pairwise_cons.mpr ⟨fun m hm => ?_, h⟩
      rcases List.mem_cons.mp hm with rfl | hm
      · exact hlt
      · exact hlt.trans (hf m hm)
    · refine List.pairwise_cons.mpr ⟨fun m hm => ?_, ih hr⟩
      rcases mem_insertMember hm with rfl | hm
      · exact lt_of_le_of_ne (not_lt.mp hlt) (Ne.symm he)
      · exact hf m hm

/-- **Members in the order of keys are given by the values under all keys.** -/
theorem KeyOrdered.ext {members others : List (String × Json)} (h : KeyOrdered members)
    (h' : KeyOrdered others) (hl : ∀ key, members.lookup key = others.lookup key) :
    members = others := by
  have : Std.Antisymm fun a b : String × Json => a.1 < b.1 :=
    ⟨fun _ _ hab hba => absurd hba hab.asymm⟩
  have : Std.Irrefl fun a b : String × Json => a.1 < b.1 := ⟨fun _ => lt_irrefl _⟩
  refine List.Pairwise.eq_of_mem_iff h h' fun m => ?_
  rw [← lookup_eq_some_iff_mem h.nodup, ← lookup_eq_some_iff_mem h'.nodup, hl]

/-! ### Objects built from entries -/

theorem keyOrdered_foldl_insertMember (entries : List (String × Json))
    {sorted : List (String × Json)} (h : KeyOrdered sorted) :
    KeyOrdered (entries.foldl (fun sorted m => insertMember m.1 m.2 sorted) sorted) := by
  induction entries generalizing sorted with
  | nil => exact h
  | cons e rest ih => exact ih (keyOrdered_insertMember e.1 e.2 h)

theorem lookup_foldl_insertMember {entries : List (String × Json)}
    (h : (entries.map (·.1)).Nodup) (sorted : List (String × Json)) (key : String) :
    (entries.foldl (fun sorted m => insertMember m.1 m.2 sorted) sorted).lookup key =
      (entries.lookup key).or (sorted.lookup key) := by
  induction entries generalizing sorted with
  | nil => simp
  | cons e rest ih =>
    obtain ⟨hn, hr⟩ := List.nodup_cons.mp h
    rw [List.foldl_cons, ih hr, lookup_insertMember, lookup_cons_ite]
    split_ifs with hk
    · subst hk
      rw [lookup_eq_none_iff_notMem.mpr hn]
      rfl
    · rfl

/-- **The members of an object that is built from entries with distinct names**: in the order of
keys, with the same values. -/
theorem ofMembers_eq_object_iff {entries members : List (String × Json)}
    (h : (entries.map (·.1)).Nodup) :
    ofMembers entries = object members ↔
      KeyOrdered members ∧ ∀ key, members.lookup key = entries.lookup key := by
  have ho := keyOrdered_foldl_insertMember entries (List.Pairwise.nil : KeyOrdered [])
  have hl := fun key => (lookup_foldl_insertMember h [] key).trans Option.or_none
  unfold ofMembers
  constructor
  · rintro ⟨⟩
    exact ⟨ho, hl⟩
  · rintro ⟨hm, hk⟩
    rw [ho.ext hm fun key => (hl key).trans (hk key).symm]

theorem member_of_ofMembers_eq {entries members : List (String × Json)}
    (h : (entries.map (·.1)).Nodup) (ho : ofMembers entries = object members) {name : String}
    {value : Json} (hm : (name, value) ∈ entries) : member name members = value := by
  rw [member, ((ofMembers_eq_object_iff h).mp ho).2, (lookup_eq_some_iff_mem h).mpr hm]
  rfl

theorem lookup_map_fst {α : Type} (fields : List (String × α)) (f : String → Json)
    (key : String) :
    (fields.map fun e => (e.1, f e.1)).lookup key =
      if key ∈ fields.map (·.1) then some (f key) else none := by
  induction fields with
  | nil => rfl
  | cons e rest ih =>
    simp only [List.map_cons, lookup_cons_ite, ih, List.mem_cons]
    by_cases h : key = e.1
    · simp [h]
    · simp only [h, if_false, false_or]

theorem lookup_eq_of_keys {α : Type} {fields : List (String × α)} {members : List (String × Json)}
    (h : ∀ key, key ∈ members.map (·.1) ↔ key ∈ fields.map (·.1)) (key : String) :
    members.lookup key = (fields.map fun f => (f.1, member f.1 members)).lookup key := by
  rw [lookup_map_fst fields (member · members)]
  cases hl : members.lookup key with
  | none => rw [if_neg fun hk => lookup_eq_none_iff_notMem.mp hl ((h key).mpr hk)]
  | some value =>
    have hk : key ∈ members.map (·.1) := by
      by_contra hn
      rw [lookup_eq_none_iff_notMem.mpr hn] at hl
      cases hl
    rw [if_pos ((h key).mp hk), member, hl]
    rfl

/-! ### Insertions in another order -/

section Order
variable {a b : String} (value other : Json)

theorem insertMember_of_lt (h : a < b) (rest : List (String × Json)) :
    insertMember a value ((b, other) :: rest) = (a, value) :: (b, other) :: rest := by
  rw [insertMember, if_neg (ne_of_lt h), if_pos h]

theorem insertMember_of_gt (h : b < a) (rest : List (String × Json)) :
    insertMember a value ((b, other) :: rest) = (b, other) :: insertMember a value rest := by
  rw [insertMember, if_neg (ne_of_gt h), if_neg (lt_asymm h)]

theorem insertMember_self (rest : List (String × Json)) :
    insertMember a value ((a, other) :: rest) = (a, value) :: rest := if_pos rfl

theorem insertMember_comm_of_lt (h : a < b) (members : List (String × Json)) :
    insertMember a value (insertMember b other members) =
      insertMember b other (insertMember a value members) := by
  induction members with
  | nil =>
    have hb : insertMember b other [(a, value)] = [(a, value), (b, other)] :=
      insertMember_of_gt other value h []
    exact (insertMember_of_lt value other h []).trans hb.symm
  | cons m rest ih =>
    obtain ⟨k, v⟩ := m
    -- where the greater key goes decides where the smaller one finds its place
    rcases lt_trichotomy b k with hk | rfl | hk
    · rw [insertMember_of_lt other v hk, insertMember_of_lt value other h,
        insertMember_of_lt value v (h.trans hk), insertMember_of_gt other value h,
        insertMember_of_lt other v hk]
    · rw [insertMember_self other v, insertMember_of_lt value other h,
        insertMember_of_lt value v h, insertMember_of_gt other value h, insertMember_self other v]
    · rw [insertMember_of_gt other v hk]
      rcases lt_trichotomy a k with ha | rfl | ha
      · rw [insertMember_of_lt value v ha, insertMember_of_lt value v ha,
          insertMember_of_gt other value h, insertMember_of_gt other v hk]
      · rw [insertMember_self value v, insertMember_self value v, insertMember_of_gt other value h]
      · rw [insertMember_of_gt value v ha, insertMember_of_gt value v ha,
          insertMember_of_gt other v hk, ih]

theorem insertMember_comm (h : a ≠ b) (members : List (String × Json)) :
    insertMember a value (insertMember b other members) =
      insertMember b other (insertMember a value members) := by
  rcases lt_or_gt_of_ne h with hlt | hlt
  · exact insertMember_comm_of_lt value other hlt members
  · exact (insertMember_comm_of_lt other value hlt members).symm

end Order

/-! ### Several insertions -/

/-- The members with all entries inserted, one after the other. -/
def insertAll (entries members : List (String × Json)) : List (String × Json) :=
  entries.foldl (fun sorted m => insertMember m.1 m.2 sorted) members

/-- A member that the insertion of its key finds, since all members before it have smaller keys. -/
inductive Placed (key : String) (value : Json) : List (String × Json) → Prop
  | here (rest : List (String × Json)) : Placed key value ((key, value) :: rest)
  | later {m : String × Json} {rest : List (String × Json)} (hlt : m.1 < key)
      (h : Placed key value rest) : Placed key value (m :: rest)

section Placed
variable {key : String} {value : Json} {members : List (String × Json)}

theorem Placed.insertMember_eq (h : Placed key value members) :
    insertMember key value members = members := by
  induction h with
  | here rest => exact if_pos rfl
  | @later m rest hlt _ ih =>
    rw [insertMember, if_neg (ne_of_gt hlt), if_neg (lt_asymm hlt), ih]

theorem placed_insertMember (key : String) (value : Json) (members : List (String × Json)) :
    Placed key value (insertMember key value members) := by
  induction members with
  | nil => exact .here []
  | cons m rest ih =>
    unfold insertMember
    split_ifs with he hlt
    · exact .here rest
    · exact .here (m :: rest)
    · exact .later (lt_of_le_of_ne (not_lt.mp hlt) (Ne.symm he)) ih

/-- An insertion under another key leaves a member where its key is looked for. -/
theorem Placed.insertMember (h : Placed key value members) {other : String} (hne : other ≠ key)
    (v : Json) : Placed key value (insertMember other v members) := by
  induction h with
  | here rest =>
    unfold Json.insertMember
    rw [if_neg hne]
    split_ifs with hlt
    · exact .later hlt (.here rest)
    · exact .here _
  | @later m rest hlt h ih =>
    unfold Json.insertMember
    split_ifs with he ho
    · exact .later (he ▸ hlt) h
    · exact .later (ho.trans hlt) (.later hlt h)
    · exact .later hlt ih

theorem Placed.insertAll (h : Placed key value members) {entries : List (String × Json)}
    (hn : key ∉ entries.map (·.1)) : Placed key value (insertAll entries members) := by
  induction entries generalizing members with
  | nil => exact h
  | cons e rest ih =>
    obtain ⟨hne, hrest⟩ := not_or.mp fun hm => hn (List.mem_cons.mpr hm)
    exact ih (h.insertMember (Ne.symm hne) e.2) hrest

end Placed

section InsertAll
variable {entries : List (String × Json)} (hnames : (entries.map (·.1)).Nodup)
include hnames

theorem placed_insertAll (members : List (String × Json)) {m : String × Json} (hm : m ∈ entries) :
    Placed m.1 m.2 (insertAll entries members) := by
  induction entries generalizing members with
  | nil => cases hm
  | cons e rest ih =>
    obtain ⟨hn, hr⟩ := List.nodup_cons.mp hnames
    rcases List.mem_cons.mp hm with rfl | hm
    · exact (placed_insertMember m.1 m.2 members).insertAll hn
    · exact ih hr _ hm

/-- **Insertions that are made again change nothing.** -/
theorem insertAll_insertAll (members : List (String × Json)) :
    insertAll entries (insertAll entries members) = insertAll entries members := by
  have h : ∀ m ∈ entries, Placed m.1 m.2 (insertAll entries members) :=
    fun m hm => placed_insertAll hnames members hm
  generalize insertAll entries members = done at h
  clear hnames
  induction entries with
  | nil => rfl
  | cons e rest ih =>
    rw [insertAll, List.foldl_cons, (h e List.mem_cons_self).insertMember_eq]
    exact ih fun m hm => h m (List.mem_cons_of_mem _ hm)

theorem lookup_insertAll_of_mem (members : List (String × Json)) {m : String × Json}
    (hm : m ∈ entries) : (insertAll entries members).lookup m.1 = some m.2 := by
  rw [insertAll, lookup_foldl_insertMember hnames, (lookup_eq_some_iff_mem hnames).mpr hm]
  rfl

theorem member_insertAll_of_mem (members : List (String × Json)) {m : String × Json}
    (hm : m ∈ entries) : member m.1 (insertAll entries members) = m.2 := by
  rw [member, lookup_insertAll_of_mem hnames members hm]
  rfl

theorem lookup_insertAll_of_notMem (members : List (String × Json)) {key : String}
    (hn : key ∉ entries.map (·.1)) :
    (insertAll entries members).lookup key = members.lookup key := by
  rw [insertAll, lookup_foldl_insertMember hnames, lookup_eq_none_iff_notMem.mpr hn, Option.none_or]

theorem member_insertAll_of_notMem (members : List (String × Json)) {key : String}
    (hn : key ∉ entries.map (·.1)) :
    member key (insertAll entries members) = member key members := by
  rw [member, member, lookup_insertAll_of_notMem hnames members hn]

/-- **Insertions under distinct names can be made in any order.** -/
theorem insertAll_perm {others : List (String × Json)} (h : entries.Perm others)
    (members : List (String × Json)) : insertAll entries members = insertAll others members := by
  refine h.foldl_eq' (fun m hm m' hm' sorted => ?_) members
  by_cases he : m.1 = m'.1
  · obtain rfl : m = m' := List.inj_on_of_nodup_map hnames hm hm' he
    rfl
  · exact insertMember_comm m'.2 m.2 (Ne.symm he) sorted

end InsertAll

end Json

end ShorthandSchema
