import ShorthandSchema.Proofs.Matching

/-! # Reworded schemas: other messages

A message is the text of the failures of its own node. It is not looked at when a node is compiled
or a value is checked, and no node passes its message on. So schemas that are the same once their
messages are taken away have the same faults, outputs, codes and paths, and the node that rejects a
value stands in the same place. Only its own message can make the texts differ.

* `Schema.describe_withoutMessages`: messages are taken away from a schema or from its descriptor.
* `Schema.compile_reworded`: messages decide nothing but the texts of their own nodes. -/

namespace ShorthandSchema

/-! ### Nodes without messages -/

namespace Node

/-- A node without its message. -/
def withoutMessage (n : Node) : Node := { n with message := none }

variable {n n' : Node}

theorem sameRules_of_withoutMessage (h : n.withoutMessage = n'.withoutMessage) :
    n.SameRules n' := by
  cases n
  cases n'
  cases h
  rfl

theorem path_of_withoutMessage (h : n.withoutMessage = n'.withoutMessage) : n.path = n'.path := by
  have hpath := congrArg Node.path h
  exact hpath

end Node

/-- **Nodes that are the same but for their messages**: they complain about the same, under the same
path. -/
def Comparison.reworded : Comparison where
  free := False
  node n n' := n.withoutMessage = n'.withoutMessage
  fault f f' := f' = f
  failure f f' := f.code = f'.code ∧ f.path = f'.path
  rules := Node.sameRules_of_withoutMessage
  notABoolean h e := by rw [Node.notABoolean, Node.notABoolean, Node.path_of_withoutMessage h]
  complaint h raw c := ⟨rfl, Node.path_of_withoutMessage h⟩
  anyFault h := h.elim
  anyFailure h := h.elim

theorem Rejection.Alike.message_eq {C : Comparison} {o o' : Outline} {r r' : Rejection}
    (h : r.Alike C o o' r') (hmessage : r.node.message = r'.node.message) :
    r.failure.message = r'.failure.message := by
  obtain ⟨-, -, hreceived, hcomplaint⟩ := h
  rw [failure, failure, hreceived, hcomplaint, Site.failure, Site.failure, Node.site, Node.site,
    hmessage]

/-! ### Schemas without messages -/

namespace Schema

/-- **A schema without its messages**, at any depth. -/
def withoutMessages : Schema → Schema
  | kind k => kind k
  | named name => named name
  | triple type required sub =>
    triple type required (sub.attach.map fun s => withoutMessages s.1)
  | fields m => fields ⟨m.entries.attach.map fun f => (f.1.1, withoutMessages f.1.2)⟩
  | described d =>
    described
      { toNode := d.toNode.withoutMessage
        fields := d.fields.map fun _ =>
          ⟨d.fieldList.attach.map fun f => (f.1.1, withoutMessages f.1.2)⟩
        items := d.items.attach.map fun s => withoutMessages s.1 }
termination_by S => sizeOf S
decreasing_by
  · exact sizeOf_lt_of_items? (S := triple type required sub) s.2
  · exact sizeOf_lt_of_declared (S := fields m) f.2
  · exact sizeOf_lt_of_declared (S := described d) f.2
  · exact sizeOf_lt_of_items? (S := described d) s.2

/-- The entries of a map of fields without their messages. -/
def entriesWithoutMessages (entries : List (String × Schema)) : List (String × Schema) :=
  entries.map fun f => (f.1, f.2.withoutMessages)

theorem attach_map_withoutMessages (entries : List (String × Schema)) :
    entries.attach.map (fun f => (f.1.1, withoutMessages f.1.2)) =
      entriesWithoutMessages entries :=
  List.attach_map_val (f := fun f : String × Schema => (f.1, f.2.withoutMessages))

end Schema

namespace Descriptor

/-- A descriptor without messages, its own and those below it. -/
def withoutMessages (d : Descriptor Schema) : Descriptor Schema where
  toNode := d.toNode.withoutMessage
  fields := d.fields.map fun m => ⟨Schema.entriesWithoutMessages m.entries⟩
  items := d.items.map Schema.withoutMessages

theorem fieldList_withoutMessages (d : Descriptor Schema) :
    d.withoutMessages.fieldList = Schema.entriesWithoutMessages d.fieldList := by
  rw [withoutMessages, fieldList, fieldList]
  cases d.fields <;> rfl

variable {d d' : Descriptor Schema}

theorem items_of_withoutMessages (h : d.withoutMessages = d'.withoutMessages) :
    d.items.isSome = d'.items.isSome ∧
      ∀ s ∈ d.items, ∀ s' ∈ d'.items, s.withoutMessages = s'.withoutMessages := by
  have hitems : d.items.map Schema.withoutMessages = d'.items.map Schema.withoutMessages :=
    congrArg Descriptor.items h
  refine ⟨by simpa using congrArg Option.isSome hitems, fun s hs s' hs' => ?_⟩
  rw [hs, hs'] at hitems
  exact Option.some.inj hitems

theorem fields_of_withoutMessages (h : d.withoutMessages = d'.withoutMessages) :
    List.Forall₂ (fun f f' => f.1 = f'.1 ∧ f.2.withoutMessages = f'.2.withoutMessages)
      d.fieldList d'.fieldList := by
  have hfields := congrArg fieldList h
  rw [fieldList_withoutMessages, fieldList_withoutMessages] at hfields
  exact (map_eq_map_iff_forall₂.mp hfields).imp fun _ _ hf => Prod.mk.inj hf

end Descriptor

namespace Schema

variable {S S' : Schema}

theorem withoutMessages_triple (type : TypeRef) (required : Bool) (sub : Option Schema) :
    (triple type required sub).withoutMessages =
      triple type required (sub.map withoutMessages) := by
  rw [withoutMessages]
  simp

theorem withoutMessages_fields (m : OrderedMap Schema) :
    (fields m).withoutMessages = fields ⟨entriesWithoutMessages m.entries⟩ := by
  rw [withoutMessages, attach_map_withoutMessages]

theorem withoutMessages_described (d : Descriptor Schema) :
    (described d).withoutMessages = described d.withoutMessages := by
  have hfields :
      (d.fields.map fun _ => (⟨entriesWithoutMessages d.fieldList⟩ : OrderedMap Schema)) =
        d.fields.map fun m => ⟨entriesWithoutMessages m.entries⟩ := by
    rw [Descriptor.fieldList]
    cases d.fields <;> rfl
  rw [withoutMessages, attach_map_withoutMessages, hfields, Descriptor.withoutMessages]
  simp

theorem describeTriple_withoutMessages (path : String) (k : Kind) (required : Bool)
    (sub : Option Schema) :
    describeTriple path k required (sub.map withoutMessages) =
      (describeTriple path k required sub).map Descriptor.withoutMessages := by
  cases k with
  | object =>
    cases sub with
    | none => rfl
    | some s =>
      rw [Option.map_some]
      cases s with
      | kind | named =>
        rw [withoutMessages]
        rfl
      | triple =>
        rw [withoutMessages_triple]
        rfl
      | fields =>
        rw [withoutMessages_fields]
        rfl
      | described =>
        rw [withoutMessages_described]
        rfl
  | array => cases sub <;> rfl
  | boolean | integer | number | string | any => rfl

theorem describe_withoutMessages (v : Vocabulary) (path : String) (S : Schema) :
    S.withoutMessages.describe v path =
      (S.describe v path).map Descriptor.withoutMessages := by
  cases S with
  | kind k =>
    rw [withoutMessages]
    rfl
  | named name =>
    rw [withoutMessages, describe]
    cases v.typeOf path (.name name) <;> rfl
  | triple type required sub =>
    rw [withoutMessages_triple, describe, describe]
    cases v.typeOf path type with
    | error f => rfl
    | ok r => exact describeTriple_withoutMessages path r.1 (required || r.2) sub
  | fields m =>
    rw [withoutMessages_fields]
    rfl
  | described d =>
    rw [withoutMessages_described]
    rfl

theorem corresponds_describe (h : S.withoutMessages = S'.withoutMessages) (v : Vocabulary)
    (path : String) :
    Corresponds Eq (fun d d' => d.withoutMessages = d'.withoutMessages) (S.describe v path)
      (S'.describe v path) := by
  refine .of_map_eq ?_
  rw [← describe_withoutMessages, ← describe_withoutMessages, h]

/-! ### The same nodes -/

theorem matches_reworded (v : Vocabulary) (path : String) (S : Schema) :
    ∀ {S' : Schema}, S.withoutMessages = S'.withoutMessages →
      (S.outline v path).Matches .reworded (S'.outline v path) := by
  induction path, S using Schema.induction v with
  | step path S ih =>
    intro S' h
    have hboth := corresponds_describe h v path
    rw [outline_eq, outline_eq]
    cases hd : S.describe v path with
    | error f =>
      rw [hd] at hboth
      generalize S'.describe v path = x at hboth
      cases hboth with
      | error hf => exact .fault hf.symm
    | ok d =>
      rw [hd] at hboth
      generalize S'.describe v path = x at hboth
      cases hboth with
      | @ok _ d' hsame =>
        obtain ⟨ihitem, ihfields⟩ := ih d hd
        have hnode : d.toNode.withoutMessage = d'.toNode.withoutMessage :=
          congrArg Descriptor.toNode hsame
        have hpath : d.path = d'.path := Node.path_of_withoutMessage hnode
        obtain ⟨hsome, hitems⟩ := Descriptor.items_of_withoutMessages hsame
        refine Descriptor.matches_outline hnode hsome (fun s hs s' hs' => ?_) (.same _) fun _ => ?_
        · rw [← hpath]
          exact ihitem s hs _ (hitems s hs s' hs')
        · refine (forall₂_and_mem (Descriptor.fields_of_withoutMessages hsame)).imp ?_
          rintro f f' ⟨hf, -, hname, hf'⟩
          rw [← hpath, ← hname]
          exact ⟨rfl, ihfields f hf _ hf'⟩

theorem summary_reworded (h : S.withoutMessages = S'.withoutMessages) {v : Vocabulary}
    {path : String} {c c' : Compiled} (hc : (S.compile v path).result = .ok c)
    (hc' : (S'.compile v path).result = .ok c') :
    c.name = c'.name ∧ c.kind = c'.kind ∧ c.required = c'.required := by
  obtain ⟨d, hd, -, hname, hkind, hrequired⟩ := validator_of_compile hc
  obtain ⟨d', hd', -, hname', hkind', hrequired'⟩ := validator_of_compile hc'
  have hboth := corresponds_describe h v path
  rw [hd, hd'] at hboth
  cases hboth with
  | ok hsame =>
    have hnode : d.toNode.withoutMessage = d'.toNode.withoutMessage :=
      congrArg Descriptor.toNode hsame
    have hpath : d.path = d'.path := Node.path_of_withoutMessage hnode
    have hrules : d.toNode.SameRules d'.toNode := Node.sameRules_of_withoutMessage hnode
    rw [hname, hname', hkind, hkind', hrequired, hrequired', hpath, hrules]
    exact ⟨rfl, rfl, rfl⟩

/-! ### Compiled schemas -/

/-- **Messages decide nothing but the texts of their own nodes.** Schemas that are the same without
their messages have the same fault, or both compile; and then they accept a value with the same
output, or reject it by nodes in one place, with the same code and path. The text is the same as
well if these two nodes have the same message, whatever messages other nodes have. -/
theorem compile_reworded (h : S.withoutMessages = S'.withoutMessages) (v : Vocabulary)
    (path : String) :
    Corresponds Eq
      (fun c c' => (c.name = c'.name ∧ c.kind = c'.kind ∧ c.required = c'.required) ∧
        ∀ raw,
          (∃ out, c.validate raw = .ok out ∧ c'.validate raw = .ok out) ∨
          ∃ r r', (S.outline v path).eval raw = .error r ∧ c.validate raw = .error r.failure ∧
            (S'.outline v path).eval raw = .error r' ∧ c'.validate raw = .error r'.failure ∧
            Outline.SamePlace (S.outline v path) (S'.outline v path) r.node r'.node ∧
            r.failure.code = r'.failure.code ∧ r.failure.path = r'.failure.path ∧
            (r.node.message = r'.node.message → r.failure.message = r'.failure.message))
      (S.compile v path).result (S'.compile v path).result := by
  have hmatch := matches_reworded v path S h
  have hboth := corresponds_compile hmatch fun hfree => hfree.elim
  cases hc : (S.compile v path).result with
  | error f =>
    rw [hc] at hboth
    generalize (S'.compile v path).result = x at hboth
    cases hboth with
    | error hf => exact .error hf.symm
  | ok c =>
    cases hc' : (S'.compile v path).result with
    | error f => rw [hc, hc'] at hboth; cases hboth
    | ok c' =>
      refine .ok ⟨summary_reworded h hc hc', fun raw => ?_⟩
      rw [validate_eq_eval hc, validate_eq_eval hc']
      have heval := hmatch.eval_alike (fun hfree => hfree.elim) raw
      generalize (S.outline v path).eval raw = x at heval
      generalize (S'.outline v path).eval raw = y at heval
      cases heval with
      | @ok out _ hout => exact Or.inl ⟨out, rfl, by rw [hout]; rfl⟩
      | @error r r' hr =>
        have hr := hr.resolve_left fun hfree => hfree
        obtain ⟨hcode, hpath⟩ :
            r.failure.code = r'.failure.code ∧ r.failure.path = r'.failure.path := hr.rejection
        exact Or.inr ⟨r, r', rfl, rfl, rfl, rfl, hr.place, hcode, hpath, hr.message_eq⟩

/-! ### Lists of tags -/

/-- A list of tags, with a message of its own and one of its items. -/
def tagList (list item : Option Message) : Schema :=
  .described
    { kind := .array
      items := some (.described { kind := .string, required := true, message := item })
      message := list }

theorem withoutMessages_tagList (list item : Option Message) :
    (tagList list item).withoutMessages = tagList none none := by
  rw [tagList, withoutMessages_described, Descriptor.withoutMessages, Option.map_some,
    withoutMessages_described]
  rfl

theorem outline_tagList (list item : Option Message) :
    (tagList list item).outline .builtin "tags" =
      .array { kind := .array, path := "tags", message := list }
        (some (.scalar
          { kind := .string, path := "tags.<item>", required := true, message := item })) := by
  rw [tagList, outline_of_describe rfl, Descriptor.outline_of_array rfl, Option.map_some,
    outline_of_describe rfl]
  rfl

theorem exists_compile_tagList (list item : Option Message) :
    ∃ c, ((tagList list item).compile .builtin "tags").result = .ok c := by
  refine exists_compile_of_wellFormed ?_
  rw [outline_tagList]
  refine .array rfl fun o ho => ?_
  cases ho
  exact .scalar (fun h => by cases h) (fun h => by cases h) fun h => by cases h

/-- Lists of tags with another message of their own. Where an item is missing, its message is used
by both, and where the list is no array, only the texts are different. -/
theorem compile_reworded_tags :
    (tagList (some (.fixed "No tags")) (some (.fixed "No tag"))).withoutMessages =
        (tagList none (some (.fixed "No tag"))).withoutMessages ∧
      ∃ c c',
        ((tagList (some (.fixed "No tags")) (some (.fixed "No tag"))).compile .builtin
          "tags").result = .ok c ∧
        ((tagList none (some (.fixed "No tag"))).compile .builtin "tags").result = .ok c' ∧
        (∃ f f', c.validate (.array [.null]) = .error f ∧ c'.validate (.array [.null]) = .error f' ∧
          f.code = f'.code ∧ f.path = f'.path ∧ f.message = f'.message) ∧
        ∃ f f', c.validate (.bool true) = .error f ∧ c'.validate (.bool true) = .error f' ∧
          f.code = f'.code ∧ f.path = f'.path ∧ f.message ≠ f'.message := by
  have hsame : (tagList (some (.fixed "No tags")) (some (.fixed "No tag"))).withoutMessages =
      (tagList none (some (.fixed "No tag"))).withoutMessages := by
    rw [withoutMessages_tagList, withoutMessages_tagList]
  obtain ⟨c, hc⟩ := exists_compile_tagList (some (.fixed "No tags")) (some (.fixed "No tag"))
  obtain ⟨c', hc'⟩ := exists_compile_tagList none (some (.fixed "No tag"))
  have hboth := compile_reworded hsame .builtin "tags"
  rw [hc, hc', outline_tagList, outline_tagList] at hboth
  cases hboth with
  | ok h =>
    obtain ⟨-, hvalidate⟩ := h
    refine ⟨hsame, c, c', hc, hc', ?_, ?_⟩
    · obtain ⟨_, h, -⟩ | ⟨r, r', hr, hf, hr', hf', -, hcode, hpath, hmessage⟩ :=
        hvalidate (.array [.null])
      · rw [validate_eq_eval hc, outline_tagList] at h
        cases h
      · cases hr
        cases hr'
        exact ⟨_, _, hf, hf', hcode, hpath, hmessage rfl⟩
    · obtain ⟨_, h, -⟩ | ⟨r, r', hr, hf, hr', hf', -, hcode, hpath, -⟩ := hvalidate (.bool true)
      · rw [validate_eq_eval hc, outline_tagList] at h
        cases h
      · cases hr
        cases hr'
        exact ⟨_, _, hf, hf', hcode, hpath, by decide +kernel⟩

end Schema

end ShorthandSchema
