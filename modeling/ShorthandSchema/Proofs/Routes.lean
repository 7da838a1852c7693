import Mathlib.Data.List.Nodup
import ShorthandSchema.Proofs.Faults
import ShorthandSchema.Proofs.Visits

/-! # Routes: which node a path belongs to

A route goes from a place to a reached one, through items and declared fields, and the path of a
place is the path of the root with the names on the way. Names without dots can be told from each
other in a path, so two routes with the same path are the same unless a name on one of them is empty
or has a dot.

* `Path.foldl_child_inj`: names on the way from one path are told by where they lead to.
* `Place.Route.eq_of_path_eq`: routes with the same path.
* `Schema.path_identifies`: the path of a failure tells the place of the node that raised it. -/

namespace ShorthandSchema

/-! ### Names on the way -/

namespace Path

/-- **A name that can be told in a path**: it is not empty and has no dot. -/
def Clear (name : String) : Prop := name ≠ "" ∧ '.' ∉ name.toList

theorem clear_item : Clear item := by
  constructor <;> decide

theorem child_ne_empty {parent name : String} (h : parent ≠ "" ∨ name ≠ "") :
    child parent name ≠ "" := by
  by_cases hp : parent = ""
  · rw [hp, child_empty]
    exact h.resolve_left (not_not_intro hp)
  · rw [child_of_ne hp, Ne, String.append_eq_empty_iff, String.append_eq_empty_iff]
    exact fun he => hp he.1.1

theorem append_intercalate (first : String) (names : List String) :
    first ++ ".".intercalate ("" :: names) = ".".intercalate (first :: names) := by
  cases names with
  | nil => rw [String.intercalate_singleton, String.intercalate_singleton, String.append_empty]
  | cons name rest =>
    rw [String.intercalate_cons_cons, String.intercalate_cons_cons, String.empty_append,
      String.append_assoc]

/-- Below a path that is not empty, each name stands behind a dot. -/
theorem foldl_child_of_ne (names : List String) :
    ∀ {parent : String}, parent ≠ "" →
      names.foldl child parent = ".".intercalate (parent :: names) := by
  induction names with
  | nil => exact fun _ => String.intercalate_singleton.symm
  | cons name rest ih =>
    intro parent h
    rw [List.foldl_cons, ih (child_ne_empty (Or.inl h)), child_of_ne h, ← append_intercalate,
      String.append_assoc, append_intercalate, String.intercalate_cons_cons]

theorem intercalate_dot_inj {names others : List String} (hnames : names ≠ [])
    (hothers : others ≠ []) (hdots : ∀ name ∈ names, '.' ∉ name.toList)
    (hdots' : ∀ name ∈ others, '.' ∉ name.toList)
    (h : ".".intercalate names = ".".intercalate others) : names = others := by
  have hsplit : ∀ {l : List String}, l ≠ [] → (∀ name ∈ l, '.' ∉ name.toList) →
      (".".intercalate l).toList.splitOn '.' = l.map String.toList := by
    intro l hl hdot
    rw [String.toList_intercalate]
    exact List.splitOn_intercalate '.' (List.forall_mem_map.mpr hdot) (mt List.map_eq_nil_iff.mp hl)
  have hmap := hsplit hnames hdots
  rw [h, hsplit hothers hdots'] at hmap
  exact List.map_injective_iff.mpr (fun a b => String.toList_inj.mp) hmap.symm

/-- Below the empty path the names stand alone. -/
theorem foldl_child_empty {names : List String} (h : ∀ name ∈ names, Clear name) :
    names.foldl child "" = ".".intercalate names := by
  cases names with
  | nil => exact String.intercalate_nil.symm
  | cons name rest =>
    rw [List.foldl_cons, child_empty, foldl_child_of_ne rest (h name List.mem_cons_self).1]

theorem intercalate_ne_empty {names : List String} (hne : names ≠ [])
    (h : ∀ name ∈ names, Clear name) : ".".intercalate names ≠ "" := by
  obtain ⟨name, rest, rfl⟩ := List.exists_cons_of_ne_nil hne
  rw [← append_intercalate, Ne, String.append_eq_empty_iff]
  exact fun he => (h name List.mem_cons_self).1 he.1

/-- **Names on the way from one path are told by where they lead to.** -/
theorem foldl_child_inj {parent : String} {names others : List String}
    (hnames : ∀ name ∈ names, Clear name) (hothers : ∀ name ∈ others, Clear name)
    (h : names.foldl child parent = others.foldl child parent) : names = others := by
  by_cases hp : parent = ""
  · rw [hp, foldl_child_empty hnames, foldl_child_empty hothers] at h
    rcases eq_or_ne names [] with rfl | hn
    · by_contra ho
      exact intercalate_ne_empty (Ne.symm ho) hothers h.symm
    · rcases eq_or_ne others [] with rfl | ho
      · exact absurd h (intercalate_ne_empty hn hnames)
      · exact intercalate_dot_inj hn ho (fun name hname => (hnames name hname).2)
          (fun name hname => (hothers name hname).2) h
  · -- the parent may have dots, but it is the same for both
    rw [foldl_child_of_ne names hp, foldl_child_of_ne others hp, ← append_intercalate parent names,
      ← append_intercalate parent others, String.append_right_inj] at h
    have hdots : ∀ {l : List String}, (∀ name ∈ l, Clear name) →
        ∀ name ∈ "" :: l, '.' ∉ name.toList := fun hl =>
      List.forall_mem_cons.mpr ⟨List.not_mem_nil, fun name hname => (hl name hname).2⟩
    exact (List.cons.inj (intercalate_dot_inj (List.cons_ne_nil _ _) (List.cons_ne_nil _ _)
      (hdots hnames) (hdots hothers) h)).2

-- two ways with one path: a name with a dot is taken for two
example : ["a", "b"].foldl child "order" = ["a.b"].foldl child "order" := by decide

end Path

/-! ### Distinct names of what a form declares -/

namespace Schema.Distinct

variable {S : Schema}

theorem of_items? (h : S.Distinct) {s : Schema} (hs : S.items? = some s) : s.Distinct := by
  cases h with
  | triple hsub => exact hsub s hs
  | described _ _ hitems => exact hitems s hs
  | kind | named | fields => cases hs

theorem declared (h : S.Distinct) :
    (S.declared.map (·.1)).Nodup ∧ ∀ f ∈ S.declared, f.2.Distinct := by
  cases h with
  | @triple type required sub hsub =>
    cases sub with
    | none => exact ⟨List.nodup_nil, fun f hf => absurd hf List.not_mem_nil⟩
    | some s =>
      cases hsub s rfl with
      | fields hnames hfields => exact ⟨hnames, hfields⟩
      | kind | named | triple | described =>
        exact ⟨List.nodup_nil, fun f hf => absurd hf List.not_mem_nil⟩
  | fields hnames hfields => exact ⟨hnames, hfields⟩
  | described hnames hfields => exact ⟨nodup_fieldList hnames, hfields⟩
  | kind | named => exact ⟨List.nodup_nil, fun f hf => absurd hf List.not_mem_nil⟩

end Schema.Distinct

namespace Place

/-! ### Routes -/

/-- A step from a place to one below it. -/
inductive Step where
  | item
  | field (name : String)
deriving DecidableEq

/-- What a step adds to a path. -/
def Step.name : Step → String
  | item => Path.item
  | field name => name

/-- **A route with a field name that is empty or has a dot.** -/
def Unclear (r : List Step) : Prop := ∃ name, .field name ∈ r ∧ (name = "" ∨ '.' ∈ name.toList)

/-- **The routes from a place to those that it reaches.** -/
inductive Route (v : Vocabulary) : Place → List Step → Place → Prop
  | here (p : Place) : Route v p [] p
  | item {p q : Place} {s : Schema} {r : List Step} (hkind : p.schema.type.Denotes v .array)
      (hs : p.schema.items? = some s) (h : Route v (s.place (Path.child p.path Path.item)) r q) :
      Route v p (.item :: r) q
  | field {p q : Place} {f : String × Schema} {r : List Step}
      (hkind : p.schema.type.Denotes v .object) (hf : f ∈ p.schema.declared)
      (h : Route v (f.2.place (Path.child p.path f.1)) r q) : Route v p (.field f.1 :: r) q

variable {v : Vocabulary} {p q : Place} {r r' : List Step}

theorem Route.trans {q' : Place} (h : Route v p r q) (h' : Route v q r' q') :
    Route v p (r ++ r') q' := by
  induction h with
  | here => exact h'
  | item hkind hs _ ih => exact .item hkind hs (ih h')
  | field hkind hf _ ih => exact .field hkind hf (ih h')

/-- **The reached places are those that have a route.** -/
theorem reaches_iff_exists_route : Reaches v p q ↔ ∃ r, Route v p r q := by
  constructor
  · intro h
    induction h with
    | root => exact ⟨[], .here p⟩
    | item _ hkind hs ih =>
      obtain ⟨r, hr⟩ := ih
      exact ⟨_, hr.trans (.item hkind hs (.here _))⟩
    | field _ hkind hf ih =>
      obtain ⟨r, hr⟩ := ih
      exact ⟨_, hr.trans (.field hkind hf (.here _))⟩
  · rintro ⟨r, hr⟩
    induction hr with
    | here => exact .root
    | item hkind hs _ ih => exact (Reaches.item .root hkind hs).trans ih
    | field hkind hf _ ih => exact (Reaches.field .root hkind hf).trans ih

theorem clear_of_not_unclear (h : ¬ Unclear r) : ∀ name ∈ r.map Step.name, Path.Clear name := by
  intro name hname
  obtain ⟨step, hstep, rfl⟩ := List.mem_map.mp hname
  cases step with
  | item => exact Path.clear_item
  | field name => exact ⟨fun he => h ⟨name, hstep, Or.inl he⟩, fun hd => h ⟨name, hstep, Or.inr hd⟩⟩

/-- A child with a name stands at its own path, whatever name it has itself. -/
theorem path_place_child {name : String} (h : name ≠ "") (parent : String) (s : Schema) :
    (s.place (Path.child parent name)).path = Path.child parent name :=
  Schema.pathAt_of_ne (Path.child_ne_empty (Or.inr h)) s

/-- **The path at the end of a route** is the path of the root with the names on the way. -/
theorem Route.path_eq (h : Route v p r q) (hr : ∀ name ∈ r.map Step.name, Path.Clear name) :
    q.path = (r.map Step.name).foldl Path.child p.path := by
  induction h with
  | here => rfl
  | item _ _ _ ih =>
    rw [List.map_cons, List.forall_mem_cons] at hr
    rw [ih hr.2, path_place_child Path.clear_item.1, List.map_cons, List.foldl_cons]
    rfl
  | @field p q f r _ _ _ ih =>
    rw [List.map_cons, List.forall_mem_cons] at hr
    have hname : f.1 ≠ "" := hr.1.1
    rw [ih hr.2, path_place_child hname, List.map_cons, List.foldl_cons]
    rfl

/-- **The names of a route determine it**, and the place that it leads to. -/
theorem Route.eq_of_names_eq (h : Route v p r q) {q' : Place} (h' : Route v p r' q')
    (hp : p.schema.Distinct) (hnames : r.map Step.name = r'.map Step.name) : r = r' ∧ q = q' := by
  induction h generalizing r' with
  | here =>
    cases h' with
    | here => exact ⟨rfl, rfl⟩
    | item | field => cases hnames
  | item hkind hs _ ih =>
    cases h' with
    | here => cases hnames
    | item _ hs' h' =>
      cases hs.symm.trans hs'
      obtain ⟨rfl, rfl⟩ := ih h' (hp.of_items? hs) (List.cons.inj hnames).2
      exact ⟨rfl, rfl⟩
    | field hkind' => cases hkind.unique hkind'
  | field hkind hf _ ih =>
    cases h' with
    | here => cases hnames
    | item hkind' => cases hkind.unique hkind'
    | field _ hf' h' =>
      obtain ⟨hname, hrest⟩ := List.cons.inj hnames
      obtain rfl := List.inj_on_of_nodup_map hp.declared.1 hf hf' hname
      obtain ⟨rfl, rfl⟩ := ih h' (hp.declared.2 _ hf) hrest
      exact ⟨rfl, rfl⟩

/-- **Routes with the same path are the same**, unless one of them is unclear. -/
theorem Route.eq_of_path_eq (h : Route v p r q) {q' : Place} (h' : Route v p r' q')
    (hp : p.schema.Distinct) (hpath : q.path = q'.path) :
    (r = r' ∧ q = q') ∨ Unclear r ∨ Unclear r' := by
  by_cases hr : Unclear r
  · exact Or.inr (Or.inl hr)
  · by_cases hr' : Unclear r'
    · exact Or.inr (Or.inr hr')
    · have hc := clear_of_not_unclear hr
      have hc' := clear_of_not_unclear hr'
      rw [h.path_eq hc, h'.path_eq hc'] at hpath
      exact Or.inl (h.eq_of_names_eq h' hp (Path.foldl_child_inj hc hc' hpath))

/-- **The node of a place.** -/
structure HasNode (v : Vocabulary) (p : Place) (n : Node) : Prop where
  path : n.path = p.path
  node : p.schema.HasNode v p.path n

end Place

/-! ### The nodes that see a value -/

theorem Visit.path_of_failure? {x : Visit} {f : Failure} (h : x.failure? = some f) :
    x.node.path = f.path := by
  obtain ⟨c, -, rfl⟩ := Option.map_eq_some_iff.mp h
  rfl

namespace Outline

variable {n : Node} {raw : Json} {x : Visit}

theorem mem_visits_array {item : Option Outline} (h : x ∈ visits (.array n item) raw) :
    x = ⟨n, raw⟩ ∨ ∃ o ∈ item, ∃ y, x ∈ o.visits y := by
  rw [visits, List.mem_cons] at h
  refine h.imp_right fun h => ?_
  split at h
  · cases h
  · cases raw with
    | array items =>
      obtain ⟨y, -, hy⟩ := List.mem_flatMap.mp h
      cases item with
      | none => cases hy
      | some o => exact ⟨o, rfl, y, hy⟩
    | _ => cases h

theorem mem_visits_object {fields : List (String × Outline)}
    (h : x ∈ visits (.object n fields) raw) :
    x = ⟨n, raw⟩ ∨ ∃ f ∈ fields, ∃ y, x ∈ f.2.visits y := by
  rw [visits, List.mem_cons] at h
  refine h.imp_right fun h => ?_
  split at h
  · cases h
  · cases raw with
    | object given =>
      rw [Json.memberVisits, visitsFields_eq_flatMap] at h
      obtain ⟨f, hf, hx⟩ := List.mem_flatMap.mp h
      exact ⟨f, hf, _, hx⟩
    | _ => cases h

end Outline

namespace Schema

variable {v : Vocabulary} {path : String} {S : Schema} {c : Compiled}

theorem pathAt_pathAt (path : String) (S : Schema) : S.pathAt (S.pathAt path) = S.pathAt path := by
  cases S with
  | described d =>
    by_cases hp : path = ""
    · simp [pathAt, hp]
    · rw [pathAt_of_ne hp, pathAt_of_ne hp]
  | kind | named | triple | fields => rfl

theorem HasNode.place {n : Node} (h : S.HasNode v path n) : (S.place path).HasNode v n :=
  ⟨h.path, { h with path := h.path.trans (pathAt_pathAt path S).symm }⟩

theorem exists_node_of_reaches (h : (S.compile v path).result = .ok c) {p : Place}
    (hp : Reaches v (S.place path) p) : ∃ n, p.HasNode v n := by
  have hwf := (reportsOn_compile v path S).eq_ok_iff.mp ⟨c, h⟩ p (Place.mem_reached_iff.mpr hp)
  have hplace : p.schema.place p.path = p := by
    cases hp with
    | root | item | field => exact congrArg (Place.mk · _) (pathAt_pathAt _ _)
  rcases describe_cases v p.path p.schema with ⟨d, -, hd⟩ | ⟨f, -, hill, -⟩
  · have hn := hd.toHasNode.place
    rw [hplace] at hn
    exact ⟨d.toNode, hn⟩
  · rw [hplace] at hill
    exact absurd hill hwf.not_illFormed

/-- **Every node that sees a value stands at the end of a route.** -/
theorem HasOutline.exists_route {o : Outline} (h : S.HasOutline v path o) :
    ∀ {raw : Json} {x : Visit}, x ∈ o.visits raw →
      ∃ r p, Place.Route v (S.place path) r p ∧ p.HasNode v x.node := by
  induction h with
  | scalar hn =>
    intro raw x hx
    obtain rfl := List.mem_singleton.mp hx
    exact ⟨[], _, .here _, hn.place⟩
  | array hn hkind _ ih =>
    intro raw x hx
    rcases Outline.mem_visits_array hx with rfl | ⟨o, ho, y, hy⟩
    · exact ⟨[], _, .here _, hn.place⟩
    · obtain ⟨s, hs, rfl⟩ := Option.map_eq_some_iff.mp ho
      obtain ⟨r, p, hr, hp⟩ := ih s hs hy
      rw [hn.path] at hr
      exact ⟨_, p, .item (hkind ▸ hn.kind) hs hr, hp⟩
  | object hn hkind _ ih =>
    intro raw x hx
    rcases Outline.mem_visits_object hx with rfl | ⟨f, hf, y, hy⟩
    · exact ⟨[], _, .here _, hn.place⟩
    · obtain ⟨g, hg, rfl⟩ := List.mem_map.mp hf
      obtain ⟨r, p, hr, hp⟩ := ih g hg hy
      rw [hn.path] at hr
      exact ⟨_, p, .field (hkind ▸ hn.kind) hg hr, hp⟩

/-- **A path tells the place of a node.** Every reached place has a route and a node with its path.
Two routes with the same path are the same, unless a field name on one of them is empty or has a
dot. So the path of a failure tells the place of the node that raised it. -/
theorem path_identifies (hS : S.Distinct) (h : (S.compile v path).result = .ok c) :
    (∀ p, Reaches v (S.place path) p →
      (∃ r, Place.Route v (S.place path) r p) ∧ ∃ n, p.HasNode v n) ∧
    (∀ r r' p q, Place.Route v (S.place path) r p → Place.Route v (S.place path) r' q →
      p.path = q.path → (r = r' ∧ p = q) ∨ Place.Unclear r ∨ Place.Unclear r') ∧
    ∀ raw f, c.validate raw = .error f →
      ∃ o, S.HasOutline v path o ∧ ∃ x ∈ o.visits raw, x.failure? = some f ∧
        ∃ r p, Place.Route v (S.place path) r p ∧ p.HasNode v x.node ∧ p.path = f.path ∧
          ∀ r' q, Place.Route v (S.place path) r' q → q.path = f.path →
            (r = r' ∧ p = q) ∨ Place.Unclear r ∨ Place.Unclear r' := by
  refine ⟨fun p hp => ⟨Place.reaches_iff_exists_route.mp hp, exists_node_of_reaches h hp⟩,
    fun r r' p q hr hr' hpath => hr.eq_of_path_eq hr' hS hpath, fun raw f hf => ?_⟩
  rw [validate_eq_visits h] at hf
  split at hf
  · rename_i g hg
    cases hf
    obtain ⟨x, hx, hfail⟩ := List.exists_of_findSome?_eq_some hg
    have ho := hasOutline_of_compile h
    obtain ⟨r, p, hr, hp⟩ := ho.exists_route hx
    have hpath : p.path = f.path := hp.path.symm.trans (Visit.path_of_failure? hfail)
    exact ⟨_, ho, x, hx, hfail, r, p, hr, hp, hpath, fun r' q hr' hq =>
      hr.eq_of_path_eq hr' hS (hpath.trans hq.symm)⟩
  · cases hf

theorem path_identifies_tag :
    ∃ c f, (orderSchema.compile .builtin "order").result = .ok c ∧ orderSchema.Distinct ∧
      c.validate (.object [("id", .string "7"), ("tags", .array [.string "a", .null])]) = .error f ∧
      f.path = "order.tags.<item>" ∧
      ∀ r q, Place.Route .builtin (orderSchema.place "order") r q → q.path = f.path →
        r = [.field "tags", .item] ∨ Place.Unclear r := by
  have hrun : (orderSchema.compile .builtin "order").result.toOption.map (fun c =>
      (c.validate (.object [("id", .string "7"), ("tags", .array [.string "a", .null])])).map
        fun _ => ()) =
      some (.error ⟨.requireField, "order.tags.<item>", "Required field is missing or null"⟩) := by
    decide +kernel
  obtain ⟨c, hc, hf⟩ := exists_rejected_of_run hrun
  obtain ⟨-, htell, -⟩ := path_identifies orderSchema_distinct hc
  have htag : Place.Route .builtin (orderSchema.place "order") [.field "tags", .item]
      ⟨"order.tags.<item>", .named "text-required"⟩ :=
    .field (f := orderSchema.declared.get ⟨1, by decide⟩) (.kind .object) (List.get_mem _ _)
      (.item (.kind .array) rfl (.here _))
  have hclear : ¬ Place.Unclear [.field "tags", .item] := by
    rintro ⟨name, hname, h⟩
    obtain rfl : name = "tags" := by simpa using hname
    revert h
    decide
  refine ⟨c, _, hc, orderSchema_distinct, hf, rfl, fun r q hr hq => ?_⟩
  rcases htell _ _ _ _ htag hr hq.symm with ⟨hroute, -⟩ | hunclear | hunclear
  · exact Or.inl hroute.symm
  · exact absurd hunclear hclear
  · exact Or.inr hunclear

end Schema

end ShorthandSchema
