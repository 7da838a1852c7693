import ShorthandSchema.Entries

/-! # Ordered maps: entries in the order of their first insertion

An insertion under a name that is already bound replaces the value and keeps its place.

* `get?_insert`: an insertion binds its name and changes no other.
* `names_insert`: it adds its name at the end unless it is there.
* `distinct_insert`, `distinct_ofList`: names stay pairwise distinct.
* `mem_ofList`: there are no entries but those that were inserted. -/

namespace ShorthandSchema

/-- **A map that keeps the order of insertion.** -/
structure OrderedMap (α : Type) where
  entries : List (String × α)
deriving Inhabited

namespace OrderedMap

variable {α : Type}

/-- The map without entries. -/
def empty : OrderedMap α := ⟨[]⟩

/-- The entries with `name` bound to `value`. -/
def insertEntry (name : String) (value : α) : List (String × α) → List (String × α)
  | [] => [(name, value)]
  | e :: rest => if e.1 = name then (name, value) :: rest else e :: insertEntry name value rest

/-- **The map with `name` bound to `value`**, in its old place if it has one. -/
def insert (m : OrderedMap α) (name : String) (value : α) : OrderedMap α :=
  ⟨insertEntry name value m.entries⟩

/-- The map of a list of entries, inserted in order. -/
def ofList (entries : List (String × α)) : OrderedMap α :=
  entries.foldl (fun m e => m.insert e.1 e.2) empty

/-- The value under a name. -/
def get? (m : OrderedMap α) (name : String) : Option α := m.entries.lookup name

/-- The names in order. -/
def names (m : OrderedMap α) : List String := m.entries.map (·.1)

/-- The number of entries. -/
def size (m : OrderedMap α) : Nat := m.entries.length

/-- Whether the names are pairwise distinct. -/
def Distinct (m : OrderedMap α) : Prop := m.names.Nodup

/-! ### What an insertion does -/

theorem lookup_insertEntry (name other : String) (value : α) (entries : List (String × α)) :
    (insertEntry name value entries).lookup other =
      if other = name then some value else entries.lookup other := by
  induction entries with
  | nil => rw [insertEntry, lookup_cons_ite]
  | cons e rest ih =>
    obtain ⟨k, v⟩ := e
    unfold insertEntry
    split
    · rename_i h
      simp only [lookup_cons_ite]
      by_cases ho : other = name
      · simp [ho]
      · have hk : other ≠ k := fun e => ho (e.trans h)
        simp [ho, hk]
    · rename_i h
      simp only [lookup_cons_ite, ih]
      by_cases hk : other = k
      · have ho : other ≠ name := fun e => h (hk ▸ e)
        simp [hk, hk ▸ ho]
      · simp [hk]

/-- **An insertion binds its name and changes no other.** -/
theorem get?_insert (m : OrderedMap α) (name other : String) (value : α) :
    (m.insert name value).get? other = if other = name then some value else m.get? other :=
  lookup_insertEntry name other value m.entries

theorem map_fst_insertEntry (name : String) (value : α) (entries : List (String × α)) :
    (insertEntry name value entries).map (·.1) =
      if name ∈ entries.map (·.1) then entries.map (·.1) else entries.map (·.1) ++ [name] := by
  induction entries with
  | nil => simp [insertEntry]
  | cons e rest ih =>
    unfold insertEntry
    split
    · rename_i h
      simp [h]
    · rename_i h
      have hn : name ≠ e.1 := fun e' => h e'.symm
      simp only [List.map_cons, ih, List.mem_cons, hn, false_or]
      split <;> simp

/-- **An insertion keeps the order of names** and adds a new one at the end. -/
theorem names_insert (m : OrderedMap α) (name : String) (value : α) :
    (m.insert name value).names = if name ∈ m.names then m.names else m.names ++ [name] :=
  map_fst_insertEntry name value m.entries

theorem distinct_empty : (empty : OrderedMap α).Distinct := List.nodup_nil

theorem distinct_insert {m : OrderedMap α} (h : m.Distinct) (name : String) (value : α) :
    (m.insert name value).Distinct := by
  unfold Distinct
  rw [names_insert]
  split
  · exact h
  · rename_i hn
    refine List.nodup_append.2 ⟨h, by simp, ?_⟩
    intro a ha b hb
    rw [List.mem_singleton.1 hb]
    exact fun e => hn (e ▸ ha)

theorem distinct_foldl_insert (entries : List (String × α)) {m : OrderedMap α} (h : m.Distinct) :
    (entries.foldl (fun m e => m.insert e.1 e.2) m).Distinct := by
  induction entries generalizing m with
  | nil => exact h
  | cons e rest ih => exact ih (distinct_insert h e.1 e.2)

theorem distinct_ofList (entries : List (String × α)) : (ofList entries).Distinct :=
  distinct_foldl_insert entries distinct_empty

/-! ### The entries of a map -/

theorem mem_insertEntry {name : String} {value : α}
    {entries : List (String × α)} {e : String × α} (h : e ∈ insertEntry name value entries) :
    e = (name, value) ∨ e ∈ entries := by
  induction entries with
  | nil => exact Or.inl (List.mem_singleton.mp h)
  | cons first rest ih =>
    unfold insertEntry at h
    split at h
    · rcases List.mem_cons.mp h with h | h
      · exact Or.inl h
      · exact Or.inr (List.mem_cons_of_mem _ h)
    · rcases List.mem_cons.mp h with h | h
      · exact Or.inr (h ▸ List.mem_cons_self)
      · exact (ih h).imp_right (List.mem_cons_of_mem _)

theorem mem_of_mem_foldl_insert {entries : List (String × α)}
    {m : OrderedMap α} {e : String × α}
    (h : e ∈ (entries.foldl (fun m e => m.insert e.1 e.2) m).entries) :
    e ∈ m.entries ∨ e ∈ entries := by
  induction entries generalizing m with
  | nil => exact Or.inl h
  | cons first rest ih =>
    rcases ih h with h | h
    · rcases mem_insertEntry h with rfl | h
      · exact Or.inr List.mem_cons_self
      · exact Or.inl h
    · exact Or.inr (List.mem_cons_of_mem _ h)

theorem mem_ofList {entries : List (String × α)} {e : String × α}
    (h : e ∈ (ofList entries).entries) : e ∈ entries :=
  (mem_of_mem_foldl_insert h).resolve_left List.not_mem_nil

end OrderedMap

end ShorthandSchema
