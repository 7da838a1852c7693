import Mathlib.Data.Finset.Card
import Mathlib.Data.List.Induction
import ShorthandSchema.Proofs.Members
import ShorthandSchema.Schema.Basic

/-! # Histories: what insertions leave in an ordered map

A map is collected from a list of entries at once, is filled one by one, or is first collected and
then filled. What it holds depends on the history of insertions only: the names in the order in
which they first came, each with the value that came last. So the fields of an object and the groups
of a candidate, which are both kept in such maps, have distinct names, however they were put
together.

* `Records.insert`: one insertion more.
* `entries_insert_of_mem`: an insertion under a bound name replaces one value and moves nothing.
* `ordered_of_made`: every map is an ordered map of its history. -/

namespace ShorthandSchema.OrderedMap

variable {α : Type}

/-- **The maps that a history of insertions makes**: collected at once, one by one, or in any mix of
these. -/
inductive Made : List (String × α) → OrderedMap α → Prop
  | empty : Made [] empty
  | collected (history : List (String × α)) : Made history (ofList history)
  | inserted {history : List (String × α)} {m : OrderedMap α} (h : Made history m) (name : String)
      (value : α) : Made (history ++ [(name, value)]) (m.insert name value)

/-- **A map holds what a history of insertions left.** -/
structure Records (m : OrderedMap α) (history : List (String × α)) : Prop where
  distinct : m.Distinct
  mem_names : ∀ name, name ∈ m.names ↔ name ∈ history.map (·.1)
  /-- A name stands before another one if it came before it for the first time. -/
  ordered : m.names.Pairwise fun a b =>
    (history.map (·.1)).idxOf a < (history.map (·.1)).idxOf b
  /-- A name has the value that came with it for the last time, and none if it never came. -/
  get : ∀ name, m.get? name = history.reverse.lookup name

theorem records_empty : (empty : OrderedMap α).Records [] where
  distinct := distinct_empty
  mem_names _ := Iff.rfl
  ordered := List.Pairwise.nil
  get _ := rfl

namespace Records

variable {m : OrderedMap α} {history : List (String × α)} (h : m.Records history)
include h

theorem ordered_insert (name : String) (value : α) :
    (m.insert name value).names.Pairwise fun a b =>
      ((history ++ [(name, value)]).map (·.1)).idxOf a <
        ((history ++ [(name, value)]).map (·.1)).idxOf b := by
  have hidx : ∀ a ∈ m.names, ((history ++ [(name, value)]).map (·.1)).idxOf a =
      (history.map (·.1)).idxOf a := fun a ha => by
    rw [List.map_append, List.idxOf_append_of_mem ((h.mem_names a).mp ha)]
  have hold : m.names.Pairwise fun a b =>
      ((history ++ [(name, value)]).map (·.1)).idxOf a <
        ((history ++ [(name, value)]).map (·.1)).idxOf b :=
    h.ordered.imp_of_mem fun ha hb hlt => by rwa [hidx _ ha, hidx _ hb]
  rw [names_insert]
  split
  · exact hold
  · -- a new name comes after the whole history
    rename_i hn
    rw [h.mem_names] at hn
    refine List.pairwise_append.mpr ⟨hold, List.pairwise_singleton _ _, fun a ha b hb => ?_⟩
    rw [List.mem_singleton.mp hb, hidx a ha, List.map_append, List.idxOf_append_of_notMem hn]
    exact Nat.lt_of_lt_of_le (List.idxOf_lt_length_of_mem ((h.mem_names a).mp ha))
      (Nat.le_add_right _ _)

theorem insert (name : String) (value : α) :
    (m.insert name value).Records (history ++ [(name, value)]) where
  distinct := distinct_insert h.distinct name value
  mem_names other := by
    rw [names_insert, List.map_append, List.mem_append, ← h.mem_names]
    split
    · rename_i hn
      simp only [List.map_cons, List.map_nil, List.mem_singleton]
      exact ⟨Or.inl, fun ho => ho.elim id fun e => e ▸ hn⟩
    · rw [List.mem_append]
      rfl
  ordered := h.ordered_insert name value
  get other := by
    rw [get?_insert, List.reverse_append, List.reverse_singleton, List.singleton_append,
      lookup_cons_ite, h.get]

theorem last {earlier later : List (String × α)} {name : String} {value : α}
    (he : history = earlier ++ (name, value) :: later) (hl : name ∉ later.map (·.1)) :
    m.get? name = some value := by
  have hnone : later.reverse.lookup name = none := by
    rw [lookup_eq_none_iff_notMem, List.map_reverse, List.mem_reverse]
    exact hl
  rw [h.get, he, List.reverse_append, List.reverse_cons, List.append_assoc, List.lookup_append,
    hnone, Option.none_or, List.singleton_append, lookup_cons_ite, if_pos rfl]

theorem absent {name : String} (hn : name ∉ history.map (·.1)) : m.get? name = none := by
  rw [h.get, lookup_eq_none_iff_notMem, List.map_reverse, List.mem_reverse]
  exact hn

theorem size_eq : m.size = (history.map (·.1)).toFinset.card := by
  have hnames : m.names.toFinset = (history.map (·.1)).toFinset := by
    ext name
    rw [List.mem_toFinset, List.mem_toFinset, h.mem_names]
  rw [← hnames, List.toFinset_card_of_nodup h.distinct, size, names, List.length_map]

end Records

theorem records_ofList (history : List (String × α)) : (ofList history).Records history := by
  induction history using List.reverseRecOn with
  | nil => exact records_empty
  | append_singleton history e ih =>
    rw [ofList, List.foldl_append]
    exact ih.insert e.1 e.2

theorem Made.records {history : List (String × α)} {m : OrderedMap α} (h : Made history m) :
    m.Records history := by
  induction h with
  | empty => exact records_empty
  | collected history => exact records_ofList history
  | inserted _ name value ih => exact ih.insert name value

/-! ### Replacement -/

theorem insertEntry_of_mem {name : String} {entries : List (String × α)}
    (hd : (entries.map (·.1)).Nodup) (hn : name ∈ entries.map (·.1)) (value : α) :
    insertEntry name value entries =
      entries.map fun e => if e.1 = name then (name, value) else e := by
  induction entries with
  | nil => cases hn
  | cons e rest ih =>
    obtain ⟨hfirst, hrest⟩ := List.nodup_cons.mp hd
    rw [insertEntry, List.map_cons]
    split
    · rename_i he
      -- the name is not bound again further on
      have hne : ∀ r ∈ rest, r.1 ≠ name := fun r hr hr' =>
        hfirst (List.mem_map.mpr ⟨r, hr, hr'.trans he.symm⟩)
      rw [List.map_congr_left fun r hr => if_neg (hne r hr), List.map_id']
    · rename_i he
      have hn : name ∈ rest.map (·.1) := (List.mem_cons.mp hn).resolve_left fun e' => he e'.symm
      rw [ih hrest hn]

/-- **An insertion under a bound name replaces its value** and leaves every other entry, and every
place, as it is. -/
theorem entries_insert_of_mem {m : OrderedMap α} (hd : m.Distinct) {name : String}
    (hn : name ∈ m.names) (value : α) :
    (m.insert name value).entries =
      m.entries.map fun e => if e.1 = name then (name, value) else e :=
  insertEntry_of_mem hd hn value

/-! ### Ordered maps -/

/-- **Field maps and groups are ordered maps.** Whatever the history of a map: its names are
pairwise distinct, they are those of the history and stand in the order in which they first came;
each is bound to the value that came last, in look-ups and in the list of entries, and a name that
never came is absent; there are as many entries as names. An insertion under a bound name changes no
other entry and no place. -/
theorem ordered_of_made {history : List (String × α)} {m : OrderedMap α} (h : Made history m) :
    m.names.Nodup ∧
    (∀ name, name ∈ m.names ↔ name ∈ history.map (·.1)) ∧
    (m.names.Pairwise fun a b => (history.map (·.1)).idxOf a < (history.map (·.1)).idxOf b) ∧
    (∀ earlier name value later, history = earlier ++ (name, value) :: later →
      name ∉ later.map (·.1) → m.get? name = some value ∧ (name, value) ∈ m.entries) ∧
    (∀ name, name ∉ history.map (·.1) → m.get? name = none) ∧
    m.size = (history.map (·.1)).toFinset.card ∧
    ∀ name ∈ m.names, ∀ value, (m.insert name value).entries =
      m.entries.map fun e => if e.1 = name then (name, value) else e := by
  have hr := h.records
  refine ⟨hr.distinct, hr.mem_names, hr.ordered, fun earlier name value later he hl => ?_,
    fun name hn => hr.absent hn, hr.size_eq,
    fun name hn value => entries_insert_of_mem hr.distinct hn value⟩
  have hget := hr.last he hl
  exact ⟨hget, (lookup_eq_some_iff_mem hr.distinct).mp hget⟩

/-- A history in which a field comes twice. -/
def labelHistory : List (String × Schema) :=
  [("b", .named "string"), ("a", .named "int"), ("b", .named "bool")]

/-- The fields of this history: the first two are collected, then one is replaced. -/
def labelFields : OrderedMap Schema := (ofList (labelHistory.take 2)).insert "b" (.named "bool")

theorem made_labelFields : Made labelHistory labelFields :=
  .inserted (.collected (labelHistory.take 2)) "b" (.named "bool")

theorem ordered_of_made_labels :
    Made labelHistory labelFields ∧ labelFields.names = ["b", "a"] ∧
      labelFields.get? "b" = some (.named "bool") ∧ labelFields.get? "c" = none ∧
      labelFields.size = 2 ∧
      ((empty.insert "body" empty).insert "body" labelFields).get? "body" = some labelFields := by
  obtain ⟨-, -, -, hlast, habsent, hsize, -⟩ := ordered_of_made made_labelFields
  obtain ⟨-, -, -, hgroup, -⟩ := ordered_of_made
    (.inserted (.inserted .empty "body" empty) "body" labelFields)
  have hbool := hlast (labelHistory.take 2) "b" (.named "bool") [] rfl (by simp)
  have hbody := hgroup [("body", empty)] "body" labelFields [] rfl (by simp)
  exact ⟨made_labelFields, by decide, hbool.1, habsent "c" (by decide), by rw [hsize]; decide,
    hbody.1⟩

end ShorthandSchema.OrderedMap
