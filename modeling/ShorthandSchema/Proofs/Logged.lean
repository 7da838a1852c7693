import ShorthandSchema.Group
import ShorthandSchema.Proofs.Forms

/-! # Logs: what a compilation reports

A compilation announces each place that it gets to, a place before those below it. It gets to all
reached places if they are well-formed. Otherwise it ends at the first that is not, with a warning;
that place is announced if only its constraint is at fault, since its form is looked at before and
its constraint after.

* `Logged.bind`: logs of computations in a row are logs of the places in a row.
* `Schema.logged_build`: the log of an outline.
* `compile_logged`: the logs of schemas and of grouped schemas. -/

namespace ShorthandSchema

/-! ### Logs of places -/

/-- **The announcement of a place**: its path, the kind of its type, and whether it is required. -/
structure Announced (v : Vocabulary) (p : Place) (e : Event) : Prop where
  level : e.level = .debug
  text : e.text = "compiling field"
  data : ∃ k required, p.schema.type.Denotes v k ∧ (required = true ↔ p.schema.Required) ∧
    e.data = [("field", .string p.path), ("kind", .string k.name), ("required", .bool required)]

/-- **The warning about a fault**: its key and its text. -/
structure WarnsOf (f : Fault) (e : Event) : Prop where
  level : e.level = .warn
  text : e.text = "schema rejected"
  data : e.data = [("code", .string f.key), ("error", .string f.text)]

/-- The announcement of a place at fault: there is one exactly if the fault is in a constraint. -/
inductive LastAnnounced (v : Vocabulary) (p : Place) (f : Fault) : List Event → Prop
  | constraint {e : Event} (hf : f.key = "invalid_constraint") (h : Announced v p e) :
      LastAnnounced v p f [e]
  | form (hf : f.key ≠ "invalid_constraint") : LastAnnounced v p f []

/-- **The log of a compilation of places.** All places are announced, each once and in order, or
those before the first that is ill-formed, and then a single warning follows about its fault. -/
inductive Logged (v : Vocabulary) {α : Type} (places : List Place) : Traced Fault α → Prop
  | compiled {events : List Event} {a : α} (hplaces : ∀ p ∈ places, p.WellFormed v)
      (h : List.Forall₂ (Announced v) places events) : Logged v places ⟨events, .ok a⟩
  | rejected {before after : List Place} {p : Place} {f : Fault} {events last : List Event}
      {warning : Event} (hsplit : places = before ++ p :: after)
      (hbefore : ∀ q ∈ before, q.WellFormed v) (hp : p.IllFormed v f)
      (h : List.Forall₂ (Announced v) before events) (hlast : LastAnnounced v p f last)
      (hwarning : WarnsOf f warning) :
      Logged v places ⟨events ++ last ++ [warning], .error f⟩

namespace Logged

variable {v : Vocabulary} {α β : Type} {places others : List Place} {p : Place}

theorem pure (a : α) : Logged v [] (Pure.pure a : Traced Fault α) :=
  .compiled (fun _ hp => absurd hp List.not_mem_nil) .nil

/-- **Computations in a row log their places in a row.** -/
theorem bind {x : Traced Fault α} {f : α → Traced Fault β} (hx : Logged v places x)
    (hf : ∀ a, Logged v others (f a)) : Logged v (places ++ others) (x >>= f) := by
  cases hx with
  | @compiled events a hplaces h =>
    rw [Traced.bind_of_ok rfl]
    have ha := hf a
    generalize f a = y at ha
    cases ha with
    | compiled hothers h' =>
      exact .compiled (List.forall_mem_append.mpr ⟨hplaces, hothers⟩) (List.rel_append h h')
    | @rejected before after p g events' last warning hsplit hbefore hp h' hlast hwarning =>
      have hplaces' : places ++ others = (places ++ before) ++ p :: after := by
        rw [hsplit, List.append_assoc]
      have hevents : events ++ (events' ++ last ++ [warning]) =
          (events ++ events') ++ last ++ [warning] := by simp only [List.append_assoc]
      rw [hevents]
      exact .rejected hplaces' (List.forall_mem_append.mpr ⟨hplaces, hbefore⟩) hp
        (List.rel_append h h') hlast hwarning
  | @rejected before after p g events last warning hsplit hbefore hp h hlast hwarning =>
    rw [Traced.bind_of_error rfl]
    have hplaces : places ++ others = before ++ p :: (after ++ others) := by
      rw [hsplit, List.append_assoc, List.cons_append]
    exact .rejected hplaces hbefore hp h hlast hwarning

theorem announce {e : Event} {f : Unit → Traced Fault β} (hp : p.WellFormed v)
    (h : Announced v p e) (hf : Logged v places (f ())) :
    Logged v (p :: places) (Traced.emit e >>= f) :=
  have hemit : Logged v [p] (Traced.emit e) :=
    .compiled (List.forall_mem_singleton.mpr hp) (.cons h .nil)
  hemit.bind fun _ => hf

theorem map {x : Traced Fault α} (hx : Logged v places x) (g : α → β) :
    Logged v places (x >>= fun a => Pure.pure (g a)) := by
  have h := hx.bind fun a => pure (v := v) (g a)
  rwa [List.append_nil] at h

end Logged

/-! ### The log of an outline -/

theorem warnsOf_rejected (f : Fault) : WarnsOf f (.rejected f) := ⟨rfl, rfl, rfl⟩

namespace Schema

variable {v : Vocabulary} {path : String} {S : Schema} {d : Descriptor Schema} {f : Fault}

theorem announced_of_describe (h : S.describe v path = .ok d) :
    Announced v (S.place path) d.toNode.event where
  level := rfl
  text := rfl
  data := by
    have hS := describedBy_of_describe h
    refine ⟨d.kind, d.required, hS.kind, hS.required, ?_⟩
    rw [← hS.place_path]
    rfl

theorem logged_buildFields {fields : List (String × Schema)} {place : String → String}
    (ih : ∀ f ∈ fields, ∀ p,
      Logged v ((f.2.place p).reached v) (f.2.outline v p).build.reportingFault) :
    Logged v (fields.flatMap fun f => (f.2.place (place f.1)).reached v)
      (Outline.buildFields
        (fields.map fun f => (f.1, f.2.outline v (place f.1)))).reportingFault := by
  induction fields with
  | nil => exact .pure _
  | cons f rest ihr =>
    rw [List.map_cons, Outline.buildFields, Traced.reportingFault_bind, List.flatMap_cons]
    refine (ih f List.mem_cons_self _).bind fun inner => ?_
    rw [Traced.reportingFault_bind]
    exact (ihr fun g hg => ih g (List.mem_cons_of_mem _ hg)).map _

theorem logged_array (hd : S.describe v path = .ok d) (hk : d.kind = .array)
    (ih : ∀ s ∈ d.items, ∀ p,
      Logged v ((s.place p).reached v) (s.outline v p).build.reportingFault) :
    Logged v ((S.place path).reached v)
      (Outline.array d.toNode
        (d.items.map (outline v (Path.child d.path Path.item)))).build.reportingFault := by
  have hS := describedBy_of_describe hd
  have hwf : (S.place path).WellFormed v := hS.wellFormed fun hb => by cases hk.symm.trans hb
  have hitems : (S.place path).schema.items? = d.items := (hS.items hk).symm
  rw [Place.reached_eq, Place.below_of_array (hk ▸ hS.kind?), hitems, ← hS.place_path,
    List.flatMap_map, Outline.build, Traced.reportingFault_bind]
  refine .announce hwf (announced_of_describe hd) ?_
  rw [Traced.reportingFault_bind]
  refine Logged.map ?_ _
  cases hi : d.items with
  | none => exact .pure _
  | some s =>
    rw [Option.toList_some, List.flatMap_singleton]
    exact ih s hi _

theorem logged_object (hd : S.describe v path = .ok d) (hk : d.kind = .object)
    (ih : ∀ f ∈ d.fieldList, ∀ p,
      Logged v ((f.2.place p).reached v) (f.2.outline v p).build.reportingFault) :
    Logged v ((S.place path).reached v)
      (Outline.object d.toNode (d.fieldList.map fun f =>
        (f.1, f.2.outline v (Path.child d.path f.1)))).build.reportingFault := by
  have hS := describedBy_of_describe hd
  have hwf : (S.place path).WellFormed v := hS.wellFormed fun hb => by cases hk.symm.trans hb
  have hfields : (S.place path).schema.declared = d.fieldList := (hS.fields hk).symm
  rw [Place.reached_eq, Place.below_of_object (hk ▸ hS.kind?), hfields, ← hS.place_path,
    List.flatMap_map, Outline.build, Traced.reportingFault_bind]
  refine .announce hwf (announced_of_describe hd) ?_
  rw [Traced.reportingFault_bind]
  exact (logged_buildFields ih).map _

/-- A node with nothing below it is announced before its constraints are looked at. -/
theorem logged_scalar (hd : S.describe v path = .ok d) (ha : d.kind ≠ .array)
    (ho : d.kind ≠ .object) :
    Logged v ((S.place path).reached v) (Outline.scalar d.toNode).build.reportingFault := by
  have hS := describedBy_of_describe hd
  have hevent := announced_of_describe hd
  rw [Place.reached_eq, Place.below_of_scalar hS.kind? ha ho]
  cases hr : d.toNode.scalarRule? with
  | ok rule =>
    have hwf := hS.wellFormed (Node.fits_of_scalarRule? hr)
    rw [Outline.build, hr]
    exact .compiled (List.forall_mem_singleton.mpr hwf) (.cons hevent .nil)
  | error f =>
    have hill := hS.illFormed hr
    have hlog : (Outline.scalar d.toNode).build.reportingFault =
        ⟨[] ++ [d.toNode.event] ++ [.rejected f], .error f⟩ := by rw [Outline.build, hr]; rfl
    rw [hlog]
    exact .rejected rfl (fun q hq => absurd hq List.not_mem_nil) hill .nil
      (.constraint (hS.key_of_illFormed hill) hevent) (warnsOf_rejected f)

/-- **The log of an outline** is one of the reached places. -/
theorem logged_build (v : Vocabulary) (path : String) (S : Schema) :
    Logged v ((S.place path).reached v) (S.outline v path).build.reportingFault := by
  induction path, S using Schema.induction v with
  | step path S ih =>
    rcases describe_cases v path S with ⟨d, hd, hS⟩ | ⟨f, hf, hill, hbelow⟩
    · obtain ⟨ihitem, ihfields⟩ := ih d hd
      rw [outline_of_describe hd, Descriptor.outline]
      split
      · exact logged_array hd ‹_› ihitem
      · exact logged_object hd ‹_› ihfields
      · exact logged_scalar hd ‹_› ‹_›
    · rw [outline_of_fault hf, Place.reached_eq, hbelow]
      exact .rejected rfl (fun q hq => absurd hq List.not_mem_nil) hill .nil
        (.form (key_of_describe hf)) (warnsOf_rejected f)

/-! ### Compiled schemas -/

theorem exists_compile_eq (v : Vocabulary) (path : String) (S : Schema) :
    ∃ g : Validator → Compiled, (∀ val, (g val).validator = val) ∧ S.compile v path =
      (S.outline v path).build.reportingFault >>= fun val => pure (g val) := by
  cases hd : S.describe v path with
  | error f =>
    -- nothing is built, so any name and kind will do
    refine ⟨fun val => ⟨path, .any, false, val⟩, fun _ => rfl, ?_⟩
    rw [compile, hd, outline_of_fault hd]
    rfl
  | ok d =>
    refine ⟨fun val => ⟨d.path, d.kind, d.required, val⟩, fun _ => rfl, ?_⟩
    rw [compile, hd, outline_of_describe hd, Traced.of_ok_bind, Traced.reportingFault_bind]
    rfl

theorem logged_compile (v : Vocabulary) (path : String) (S : Schema) :
    Logged v ((S.place path).reached v) (S.compile v path) := by
  obtain ⟨g, -, hcompile⟩ := exists_compile_eq v path S
  rw [hcompile]
  exact (logged_build v path S).map g

end Schema

theorem logged_compileGroups (v : Vocabulary) (entries : List (String × OrderedMap Schema)) :
    Logged v (entries.flatMap fun g => ((groupSchema g.1 g.2).place g.1).reached v)
      (compileGroups v entries) := by
  induction entries with
  | nil => exact .pure _
  | cons g rest ih =>
    rw [compileGroups, List.flatMap_cons]
    exact (Schema.logged_compile v g.1 _).bind fun c => ih.map _

/-- **A compilation logs the reached places**: each once, before those below it and in the order of
declaration, or up to the first that is ill-formed, with a single warning at the end. Groups are
logged one after the other. -/
theorem compile_logged (v : Vocabulary) :
    (∀ path S, Logged v ((Schema.place path S).reached v) (Schema.compile v path S)) ∧
    ∀ S : GroupedSchema,
      Logged v (S.entries.flatMap fun g => ((groupSchema g.1 g.2).place g.1).reached v)
        (S.compile v) :=
  ⟨Schema.logged_compile v, fun S => (logged_compileGroups v S.entries).map _⟩

-- the flag is announced before its constraint is found at fault, and the date is never got to
example : ((Schema.fields (.ofList [
    ("flag", .described { kind := .boolean, required := true, value := some .null }),
    ("when", .named "date")])).compile .builtin "body").events =
    [.compiling "body" .object false, .compiling "body.flag" .boolean true,
      .rejected (.invalidConstraint "body.flag" "boolean value must be true or false, got null")] :=
  by decide +kernel

end ShorthandSchema
