import ShorthandSchema.Proofs.Conformance
import ShorthandSchema.Proofs.Groups

/-! # Retry: validation in place of what validation in place has left

A second run finds the outputs of the first in the place of the values that were accepted. Outputs
are accepted as they are, the value that was rejected is still there, and the insertions are those
that were made before.

* `accepted_insertAll`: outputs are accepted where they have been inserted.
* `GroupedSchema.commit_commit`: a second run ends as the first, with the same candidate. -/

namespace ShorthandSchema

/-- **A grouped schema whose groups have distinct names**, and so have all its maps of fields. -/
structure GroupedSchema.Distinct (S : GroupedSchema) : Prop where
  names : OrderedMap.Distinct S
  fields : ∀ e ∈ S.entries, (Schema.fields e.2).Distinct

theorem distinct_groupSchema (name : String) {m : OrderedMap Schema}
    (h : (Schema.fields m).Distinct) : (groupSchema name m).Distinct := by
  cases h with
  | fields hnames hfields =>
    refine .described (fun m' hm => ?_) hfields (fun s hs => nomatch hs)
    cases hm
    exact hnames

/-- What a compiled schema returns is accepted as it is. -/
def Compiled.Stable (c : Compiled) : Prop :=
  ∀ raw out, c.validate raw = .ok out → c.validate out = .ok out

theorem Schema.stable_of_compile {v : Vocabulary} {path : String} {S : Schema} {c : Compiled}
    (h : (S.compile v path).result = .ok c) (hS : S.Distinct) : c.Stable := by
  intro raw out hout
  rw [validate_eq_eval h, mapError_eq_ok_iff] at hout ⊢
  exact Outline.eval_of_eval (wellFormed_of_compile h) (distinct_outline v path S hS) hout

theorem GroupedSchema.stable_of_compile {v : Vocabulary} {S : GroupedSchema}
    {g : GroupedValidator} (h : (S.compile v).result = .ok g) (hS : S.Distinct) :
    ∀ e ∈ g.groups, e.2.Stable := by
  intro c hc
  obtain ⟨e, he, -, hcompile⟩ := exists_of_forall₂ (forall₂_of_compile h).flip hc
  exact Schema.stable_of_compile hcompile (distinct_groupSchema e.1 (hS.fields e he))

/-- **Outputs are accepted where they have been inserted.** -/
theorem accepted_insertAll {groups : List (String × Compiled)} {given outs : List (String × Json)}
    (hnames : (groups.map (·.1)).Nodup) (hstable : ∀ e ∈ groups, e.2.Stable)
    (h : Accepted groups given outs) : Accepted groups (Json.insertAll outs given) outs := by
  rw [← h.names] at hnames
  have hleft : ∀ e ∈ groups, e.2.Stable ∧
      ∃ out, e.2.validate (Json.member e.1 given) = .ok out ∧ (e.1, out) ∈ outs :=
    fun e he => ⟨hstable e he, h.of_mem he⟩
  refine ((List.forall₂_and_left _ _).mpr ⟨hleft, h⟩).imp ?_
  rintro e m ⟨⟨hs, out, hout, hm⟩, hname, hval⟩
  obtain rfl : out = m.2 := Except.ok.inj (hout.symm.trans hval)
  have hmember : Json.member e.1 (Json.insertAll outs given) = m.2 :=
    Json.member_insertAll_of_mem hnames given hm
  rw [hmember]
  exact ⟨hname, hs _ _ hval⟩

namespace GroupedSchema

/-- **Validation in place can be tried again.** A second run ends as the first, with the same
failure or none, and leaves the candidate as it is; it reports the same events. -/
theorem commit_commit {v : Vocabulary} {S : GroupedSchema} {g : GroupedValidator}
    (h : (S.compile v).result = .ok g) (hS : S.Distinct) (given : List (String × Json)) :
    g.commit (g.commit given).members = g.commit given := by
  have hnames := nodup_of_compile h hS.names
  have hstable := stable_of_compile h hS
  unfold GroupedValidator.commit
  rcases exists_accepted_or_rejected g.groups given with
    ⟨outs, ha⟩ | ⟨done, name, c, rest, outs, f, hsplit, ha, hf⟩
  · rw [commitGroups_of_accepted hnames ha,
      commitGroups_of_accepted hnames (accepted_insertAll hnames hstable ha),
      Json.insertAll_insertAll (by rw [ha.names]; exact hnames)]
  · rw [hsplit] at hnames hstable ⊢
    have hdone := (nodup_of_append hnames).1
    have hagain := accepted_insertAll hdone
      (fun e he => hstable e (List.mem_append_left _ he)) ha
    have hf' := hf
    rw [← ha.member_insertAll hnames List.mem_cons_self] at hf'
    rw [commitGroups_of_rejected hnames ha hf, commitGroups_of_rejected hnames hagain hf',
      Json.insertAll_insertAll (by rw [ha.names]; exact hdone)]

end GroupedSchema

theorem requestSchema_distinct : requestSchema.Distinct where
  names := OrderedMap.distinct_ofList _
  fields e he := by
    have he := OrderedMap.mem_ofList he
    simp only [List.mem_cons, List.not_mem_nil, or_false] at he
    rcases he with rfl | rfl
    · exact .ofList fun f hf => by rw [List.mem_singleton.mp hf]; exact .named _
    · exact .ofList fun f hf => by rw [List.mem_singleton.mp hf]; exact .named _

theorem commit_commit_request :
    ∃ g, (requestSchema.compile .builtin).result = .ok g ∧ requestSchema.Distinct ∧
      g.commit (g.commit request).members = g.commit request ∧
      (g.commit request).failure =
        some ⟨.requireField, "body.id", "Required field is missing or null"⟩ ∧
      (Json.object (g.commit request).members).text =
        "\x7b\"body\":\x7b\x7d,\"headers\":true,\"query\":\x7b\"page\":2\x7d\x7d" := by
  obtain ⟨g, hg⟩ := requestSchema_compiles
  exact ⟨g, hg, requestSchema_distinct,
    GroupedSchema.commit_commit hg requestSchema_distinct request, run_request hg⟩

end ShorthandSchema
