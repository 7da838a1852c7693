import ShorthandSchema.Group
import ShorthandSchema.Proofs.Members
import ShorthandSchema.Proofs.Sequence

/-! # Groups: validation in place, up to the first failure

Groups are validated one after the other in the same candidate. With distinct names no group sees
what an earlier one has written, so each is given the value that the candidate had under its name in
the beginning; the outputs of the groups before a failure are inserted, and nothing else changes.

* `commitGroups_append`: groups that accept their values leave their outputs behind.
* `exists_accepted_or_rejected`: all groups accept, or there is a first one that does not.
* `GroupedValidator.result_validate_object`: a candidate is returned with all outputs inserted.
* `GroupedSchema.commit_ends`: a candidate after validation in place. -/

namespace ShorthandSchema

/-! ### Compiled groups -/

theorem result_compileGroups (v : Vocabulary) (entries : List (String × OrderedMap Schema)) :
    (compileGroups v entries).result =
      entries.mapM fun e => ((groupSchema e.1 e.2).compile v e.1).result.map (e.1, ·) := by
  induction entries with
  | nil => rfl
  | cons e rest ih =>
    obtain ⟨name, m⟩ := e
    rw [compileGroups, List.mapM_cons, ← ih]
    cases h : ((groupSchema name m).compile v name).result with
    | error f => rw [Traced.bind_of_error h]; rfl
    | ok c =>
      rw [Traced.bind_of_ok h]
      cases hr : (compileGroups v rest).result with
      | error f => rw [Traced.bind_of_error hr]; rfl
      | ok others => rw [Traced.bind_of_ok hr]; rfl

namespace GroupedSchema

theorem result_compile (v : Vocabulary) (S : GroupedSchema) :
    (S.compile v).result = (compileGroups v S.entries).result.map GroupedValidator.mk := by
  rw [compile]
  cases h : (compileGroups v S.entries).result with
  | error f => rw [Traced.bind_of_error h]; rfl
  | ok groups => rw [Traced.bind_of_ok h]; rfl

theorem forall₂_of_compile {v : Vocabulary} {S : GroupedSchema} {g : GroupedValidator}
    (h : (S.compile v).result = .ok g) :
    List.Forall₂ (fun e c => c.1 = e.1 ∧
      ((groupSchema e.1 e.2).compile v e.1).result = .ok c.2) S.entries g.groups := by
  rw [result_compile, result_compileGroups, map_eq_ok_iff] at h
  obtain ⟨groups, hgroups, rfl⟩ := h
  refine (mapM_eq_ok_iff.mp hgroups).imp fun e c hc => ?_
  obtain ⟨c', hc', rfl⟩ := map_eq_ok_iff.mp hc
  exact ⟨rfl, hc'⟩

theorem names_of_compile {v : Vocabulary} {S : GroupedSchema} {g : GroupedValidator}
    (h : (S.compile v).result = .ok g) : g.names = S.names := by
  have hf := (forall₂_of_compile h).imp fun _ _ hc => hc.1.symm
  exact (map_eq_map_iff_forall₂.mpr hf).symm

theorem nodup_of_compile {v : Vocabulary} {S : GroupedSchema} {g : GroupedValidator}
    (h : (S.compile v).result = .ok g) (hS : OrderedMap.Distinct S) :
    (g.groups.map (·.1)).Nodup := by
  have hn : g.groups.map (·.1) = S.names := names_of_compile h
  rw [hn]
  exact hS

end GroupedSchema

/-! ### Groups that accept their values -/

/-- **The outputs of groups** that accept the values of a candidate, a missing one as null. -/
def Accepted (groups : List (String × Compiled)) (given outs : List (String × Json)) : Prop :=
  List.Forall₂ (fun e m => m.1 = e.1 ∧ e.2.validate (Json.member e.1 given) = .ok m.2) groups outs

section Commit
variable {groups done rest : List (String × Compiled)} {given others outs : List (String × Json)}

theorem Accepted.names (h : Accepted groups given outs) :
    outs.map (·.1) = groups.map (·.1) := by
  have hf := h.imp fun _ _ hm => hm.1.symm
  exact (map_eq_map_iff_forall₂.mpr hf).symm

theorem Accepted.congr (h : Accepted groups given outs)
    (hg : ∀ e ∈ groups, Json.member e.1 others = Json.member e.1 given) :
    Accepted groups others outs := by
  induction h with
  | nil => exact .nil
  | cons hm _ ih =>
    refine .cons ⟨hm.1, ?_⟩ (ih fun e he => hg e (List.mem_cons_of_mem _ he))
    rw [hg _ List.mem_cons_self]
    exact hm.2

theorem Accepted.of_mem (h : Accepted groups given outs) {e : String × Compiled} (he : e ∈ groups) :
    ∃ out, e.2.validate (Json.member e.1 given) = .ok out ∧ (e.1, out) ∈ outs := by
  obtain ⟨m, hm, hname, hout⟩ := exists_of_forall₂ h he
  exact ⟨m.2, hout, by rw [← hname]; exact hm⟩

/-- All groups accept, or there is a first one that does not. -/
theorem exists_accepted_or_rejected (groups : List (String × Compiled))
    (given : List (String × Json)) :
    (∃ outs, Accepted groups given outs) ∨
      ∃ done name c rest outs f, groups = done ++ (name, c) :: rest ∧ Accepted done given outs ∧
        c.validate (Json.member name given) = .error f := by
  induction groups with
  | nil => exact Or.inl ⟨[], .nil⟩
  | cons e groups ih =>
    cases he : e.2.validate (Json.member e.1 given) with
    | error f => exact Or.inr ⟨[], e.1, e.2, groups, [], f, rfl, .nil, he⟩
    | ok out =>
      rcases ih with ⟨outs, h⟩ | ⟨done, name, c, rest, outs, f, rfl, h, hf⟩
      · exact Or.inl ⟨(e.1, out) :: outs, .cons ⟨rfl, he⟩ h⟩
      · exact Or.inr ⟨e :: done, name, c, rest, (e.1, out) :: outs, f, rfl, .cons ⟨rfl, he⟩ h, hf⟩

/-! ### Validation in place -/

theorem commitGroups_of_ok {name : String} {c : Compiled} {out : Json}
    (h : c.validate (Json.member name given) = .ok out) (rest : List (String × Compiled)) :
    commitGroups ((name, c) :: rest) given =
      (commitGroups rest (Json.insertMember name out given)).after [.validatingGroup name] := by
  rw [commitGroups, h]

theorem commitGroups_of_error {name : String} {c : Compiled} {f : Failure}
    (h : c.validate (Json.member name given) = .error f) (rest : List (String × Compiled)) :
    commitGroups ((name, c) :: rest) given =
      ⟨given, some f, [.validatingGroup name, .groupFailed f]⟩ := by
  rw [commitGroups, h]

/-- **Groups that accept their values leave their outputs behind**, and the groups after them go on
from there. -/
theorem commitGroups_append (hnames : (done.map (·.1)).Nodup) (h : Accepted done given outs)
    (rest : List (String × Compiled)) :
    commitGroups (done ++ rest) given =
      (commitGroups rest (Json.insertAll outs given)).after
        (done.map fun e => .validatingGroup e.1) := by
  induction done generalizing given outs with
  | nil =>
    obtain rfl := List.forall₂_nil_left_iff.mp h
    rfl
  | cons e done ih =>
    obtain ⟨m, outs, ⟨hname, hout⟩, hdone, rfl⟩ := List.forall₂_cons_left_iff.mp h
    obtain ⟨hn, hr⟩ := List.nodup_cons.mp hnames
    -- no later group sees what the first one writes
    have hsame : ∀ d ∈ done, Json.member d.1 (Json.insertMember e.1 m.2 given) =
        Json.member d.1 given := by
      intro d hd
      have hne : d.1 ≠ e.1 := by
        intro he
        exact hn (List.mem_map.mpr ⟨d, hd, he⟩)
      rw [Json.member, Json.member, Json.lookup_insertMember, if_neg hne]
    have hall : Json.insertAll (m :: outs) given =
        Json.insertAll outs (Json.insertMember e.1 m.2 given) := by
      rw [Json.insertAll, List.foldl_cons, hname]
      rfl
    rw [List.cons_append, commitGroups_of_ok hout, ih hr (Accepted.congr hdone hsame), hall]
    rfl

theorem commitGroups_of_accepted (hnames : (groups.map (·.1)).Nodup)
    (h : Accepted groups given outs) :
    commitGroups groups given =
      ⟨Json.insertAll outs given, none, groups.map fun e => .validatingGroup e.1⟩ := by
  have hc := commitGroups_append hnames h []
  rw [List.append_nil] at hc
  rw [hc, commitGroups, Commit.after, List.append_nil]

theorem nodup_of_append (hnames : ((done ++ rest).map (·.1)).Nodup) :
    (done.map (·.1)).Nodup ∧ ∀ e ∈ rest, e.1 ∉ done.map (·.1) := by
  rw [List.map_append, List.nodup_append] at hnames
  obtain ⟨hdone, -, hdisjoint⟩ := hnames
  exact ⟨hdone, fun e he hm => hdisjoint e.1 hm e.1 (List.mem_map_of_mem he) rfl⟩

/-- A group still finds its original value after groups with other names. -/
theorem Accepted.member_insertAll (hnames : ((done ++ rest).map (·.1)).Nodup)
    (h : Accepted done given outs) {e : String × Compiled} (he : e ∈ rest) :
    Json.member e.1 (Json.insertAll outs given) = Json.member e.1 given := by
  obtain ⟨hdone, hn⟩ := nodup_of_append hnames
  rw [← h.names] at hdone hn
  exact Json.member_insertAll_of_notMem hdone given (hn e he)

theorem commitGroups_of_rejected {name : String} {c : Compiled} {f : Failure}
    (hnames : ((done ++ (name, c) :: rest).map (·.1)).Nodup) (h : Accepted done given outs)
    (hf : c.validate (Json.member name given) = .error f) :
    commitGroups (done ++ (name, c) :: rest) given =
      ⟨Json.insertAll outs given, some f,
        (done.map fun e => .validatingGroup e.1) ++ [.validatingGroup name, .groupFailed f]⟩ := by
  have hsame := h.member_insertAll hnames List.mem_cons_self
  rw [← hsame] at hf
  rw [commitGroups_append (nodup_of_append hnames).1 h, commitGroups_of_error hf, Commit.after]

/-! ### The outputs of groups -/

/-- What groups return for the members of a candidate, up to the first that rejects its value. -/
def runGroups (groups : List (String × Compiled)) (given : List (String × Json)) :
    Except Failure (List (String × Json)) :=
  groups.mapM fun e => (e.2.validate (Json.member e.1 given)).map (e.1, ·)

theorem runGroups_eq_ok_iff : runGroups groups given = .ok outs ↔ Accepted groups given outs := by
  rw [runGroups, mapM_eq_ok_iff]
  constructor
  · refine fun h => h.imp fun e m hm => ?_
    obtain ⟨out, hout, rfl⟩ := map_eq_ok_iff.mp hm
    exact ⟨rfl, hout⟩
  · exact fun h => h.imp fun e m hm => map_eq_ok_iff.mpr ⟨m.2, hm.2, by rw [← hm.1]⟩

theorem runGroups_of_rejected {name : String} {c : Compiled} {f : Failure}
    (h : Accepted done given outs) (hf : c.validate (Json.member name given) = .error f) :
    runGroups (done ++ (name, c) :: rest) given = .error f := by
  refine mapM_append_error _ (runGroups_eq_ok_iff.mpr h) ?_ rest
  rw [hf]
  rfl

/-- **A candidate is returned with the outputs of its groups inserted**, unless one of them
fails. -/
theorem GroupedValidator.result_validate_object {g : GroupedValidator}
    (hnames : (g.groups.map (·.1)).Nodup) (given : List (String × Json)) :
    (g.validate (.object given)).result =
      (runGroups g.groups given).map fun outs => .object (Json.insertAll outs given) := by
  rw [validate, commit]
  rcases exists_accepted_or_rejected g.groups given with
    ⟨outs, h⟩ | ⟨done, name, c, rest, outs, f, hsplit, h, hf⟩
  · rw [commitGroups_of_accepted hnames h, runGroups_eq_ok_iff.mpr h]
    rfl
  · rw [hsplit] at hnames ⊢
    rw [commitGroups_of_rejected hnames h hf, runGroups_of_rejected h hf]
    rfl

end Commit

/-! ### What becomes of a candidate -/

/-- **A candidate after some groups**: each of them has accepted its original value, and its output
stands in the place of it. All else is as it was. -/
structure Committed (done : List (String × Compiled)) (given after : List (String × Json)) :
    Prop where
  accepted : ∀ e ∈ done, ∃ out, e.2.validate (Json.member e.1 given) = .ok out ∧
    after.lookup e.1 = some out
  untouched : ∀ key, key ∉ done.map (·.1) → after.lookup key = given.lookup key
  ordered : Json.KeyOrdered given → Json.KeyOrdered after

theorem Accepted.committed {done : List (String × Compiled)} {given outs : List (String × Json)}
    (hnames : (done.map (·.1)).Nodup) (h : Accepted done given outs) :
    Committed done given (Json.insertAll outs given) where
  accepted e he := by
    obtain ⟨out, hout, hm⟩ := h.of_mem he
    rw [← h.names] at hnames
    exact ⟨out, hout, Json.lookup_insertAll_of_mem hnames given hm⟩
  untouched key hk := by
    rw [← h.names] at hnames hk
    exact Json.lookup_insertAll_of_notMem hnames given hk
  ordered ho := Json.keyOrdered_foldl_insertMember outs ho

/-- **How validation in place ends.** Either all groups accept their original values, or the first
that does not gives the failure; then its member and those of the groups after it are as they
were. -/
inductive Ends (groups : List (String × Compiled)) (given : List (String × Json)) :
    Option Failure → List (String × Json) → Prop
  | accepted {after : List (String × Json)} (h : Committed groups given after) :
      Ends groups given none after
  | rejected {done rest : List (String × Compiled)} {name : String} {c : Compiled} {f : Failure}
      {after : List (String × Json)} (hsplit : groups = done ++ (name, c) :: rest)
      (h : Committed done given after)
      (hf : c.validate (Json.member name given) = .error f)
      (hrest : ∀ e ∈ (name, c) :: rest, after.lookup e.1 = given.lookup e.1) :
      Ends groups given (some f) after

theorem ends_commitGroups {groups : List (String × Compiled)} (hnames : (groups.map (·.1)).Nodup)
    (given : List (String × Json)) :
    Ends groups given (commitGroups groups given).failure (commitGroups groups given).members := by
  rcases exists_accepted_or_rejected groups given with
    ⟨outs, h⟩ | ⟨done, name, c, rest, outs, f, rfl, h, hf⟩
  · rw [commitGroups_of_accepted hnames h]
    exact .accepted (h.committed hnames)
  · obtain ⟨hdone, hn⟩ := nodup_of_append hnames
    have hc := h.committed hdone
    rw [commitGroups_of_rejected hnames h hf]
    exact .rejected rfl hc hf fun e he => hc.untouched e.1 (hn e he)

namespace GroupedSchema

/-- **A candidate after validation in place.** The groups are those of the schema, in order; those
that accept their original values, up to the first that does not, are replaced by their outputs, and
nothing else changes. A whole candidate is validated in the same way, if it is an object. -/
theorem commit_ends {v : Vocabulary} {S : GroupedSchema} {g : GroupedValidator}
    (h : (S.compile v).result = .ok g) (hS : OrderedMap.Distinct S) (given : List (String × Json)) :
    List.Forall₂ (fun e c => c.1 = e.1 ∧
      ((groupSchema e.1 e.2).compile v e.1).result = .ok c.2) S.entries g.groups ∧
    Ends g.groups given (g.commit given).failure (g.commit given).members ∧
    (g.validate (.object given)).result =
      (g.commit given).failure.elim (.ok (.object (g.commit given).members)) .error ∧
    ∀ raw, (∀ members, raw ≠ .object members) →
      (g.validate raw).result =
        .error ⟨.notObject, "", "Expected object, received " ++ raw.typeName⟩ := by
  refine ⟨forall₂_of_compile h, ends_commitGroups (nodup_of_compile h hS) given, ?_,
    fun raw hraw => ?_⟩
  · rw [GroupedValidator.validate]
    cases (g.commit given).failure <;> rfl
  · cases raw with
    | object members => exact absurd rfl (hraw members)
    | null | bool | number | string | array => rfl

end GroupedSchema

/-! ### A request -/

/-- A request: a query with an optional page, and a body with a required id. -/
def requestSchema : GroupedSchema :=
  OrderedMap.ofList [("query", OrderedMap.ofList [("page", .named "int")]),
    ("body", OrderedMap.ofList [("id", .named "int-required")])]

theorem requestSchema_compiles : ∃ g, (requestSchema.compile .builtin).result = .ok g := by
  have h : (requestSchema.compile .builtin).result.isOk = true := by decide +kernel
  cases hr : (requestSchema.compile .builtin).result with
  | ok g => exact ⟨g, rfl⟩
  | error f => rw [hr] at h; cases h

/-- A request without an id, with headers that are no group. -/
def request : List (String × Json) :=
  [("body", .object []), ("headers", .bool true), ("query", .object [("page", .string "2")])]

theorem run_request {g : GroupedValidator} (h : (requestSchema.compile .builtin).result = .ok g) :
    (g.commit request).failure =
      some ⟨.requireField, "body.id", "Required field is missing or null"⟩ ∧
    (Json.object (g.commit request).members).text =
      "\x7b\"body\":\x7b\x7d,\"headers\":true,\"query\":\x7b\"page\":2\x7d\x7d" := by
  have hrun : (requestSchema.compile .builtin).result.toOption.map (fun g =>
      ((g.commit request).failure, (Json.object (g.commit request).members).text)) =
      some (some ⟨.requireField, "body.id", "Required field is missing or null"⟩,
        "\x7b\"body\":\x7b\x7d,\"headers\":true,\"query\":\x7b\"page\":2\x7d\x7d") := by
    decide +kernel
  rw [h] at hrun
  exact Prod.mk.inj (Option.some.inj hrun)

theorem commit_request :
    ∃ g, (requestSchema.compile .builtin).result = .ok g ∧ OrderedMap.Distinct requestSchema ∧
      Ends g.groups request (g.commit request).failure (g.commit request).members ∧
      (g.commit request).failure =
        some ⟨.requireField, "body.id", "Required field is missing or null"⟩ ∧
      (Json.object (g.commit request).members).text =
        "\x7b\"body\":\x7b\x7d,\"headers\":true,\"query\":\x7b\"page\":2\x7d\x7d" := by
  obtain ⟨g, hg⟩ := requestSchema_compiles
  have hd : OrderedMap.Distinct requestSchema := OrderedMap.distinct_ofList _
  obtain ⟨-, hends, -⟩ := GroupedSchema.commit_ends hg hd request
  exact ⟨g, hg, hd, hends, run_request hg⟩

end ShorthandSchema
