import ShorthandSchema.Proofs.Logged
import ShorthandSchema.Proofs.Pruned

/-! # Faults: the first reached place that is ill-formed

A compilation stops at the first reached place that is ill-formed, and nothing that is not reached
has a say.

* `Logged.reportsOn`: the result of a compilation reports on the places that it logs.
* `Schema.compile_fails_first`: a schema compiles exactly if all reached places are well-formed,
  and otherwise has the fault of the first that is not. -/

namespace ShorthandSchema

/-! ### The first fault -/

/-- **The first ill-formed place of a list has a fault**; those before it are well-formed. -/
inductive FailsFirst (v : Vocabulary) : List Place → Fault → Prop
  | here {p : Place} {rest : List Place} {f : Fault} (h : p.IllFormed v f) :
      FailsFirst v (p :: rest) f
  | later {p : Place} {rest : List Place} {f : Fault} (hp : p.WellFormed v)
      (h : FailsFirst v rest f) : FailsFirst v (p :: rest) f

/-- **A result reports on places**: success on places that are all well-formed, a fault on the
first that is not. -/
def ReportsOn (v : Vocabulary) {α : Type} (places : List Place) : Except Fault α → Prop
  | .ok _ => ∀ p ∈ places, p.WellFormed v
  | .error f => FailsFirst v places f

section Reports
variable {v : Vocabulary} {α : Type} {places others : List Place} {f g : Fault}

theorem FailsFirst.exists_illFormed (h : FailsFirst v places f) :
    ∃ p ∈ places, p.IllFormed v f := by
  induction h with
  | here h => exact ⟨_, List.mem_cons_self, h⟩
  | later _ _ ih =>
    obtain ⟨p, hp, h⟩ := ih
    exact ⟨p, List.mem_cons_of_mem _ hp, h⟩

theorem FailsFirst.unique (hf : FailsFirst v places f) (hg : FailsFirst v places g) : f = g := by
  induction hf with
  | here h =>
    cases hg with
    | here h' => exact h.unique h'
    | later hp => exact absurd h hp.not_illFormed
  | later hp _ ih =>
    cases hg with
    | here h' => exact absurd h' hp.not_illFormed
    | later _ h' => exact ih h'

theorem FailsFirst.append_left (hp : ∀ p ∈ places, p.WellFormed v) (h : FailsFirst v others f) :
    FailsFirst v (places ++ others) f := by
  induction places with
  | nil => exact h
  | cons p places ih =>
    exact .later (hp p List.mem_cons_self) (ih fun q hq => hp q (List.mem_cons_of_mem _ hq))

/-- **A result reports on the places that are logged.** -/
theorem Logged.reportsOn {x : Traced Fault α} (h : Logged v places x) :
    ReportsOn v places x.result := by
  cases h with
  | compiled hplaces => exact hplaces
  | rejected hsplit hbefore hp =>
    rw [hsplit]
    exact .append_left hbefore (.here hp)

theorem ReportsOn.eq_ok_iff {r : Except Fault α} (h : ReportsOn v places r) :
    (∃ a, r = .ok a) ↔ ∀ p ∈ places, p.WellFormed v := by
  cases r with
  | ok a => exact iff_of_true ⟨a, rfl⟩ h
  | error f =>
    refine iff_of_false (fun ⟨a, ha⟩ => by cases ha) fun hp => ?_
    obtain ⟨p, hm, hi⟩ := FailsFirst.exists_illFormed h
    exact (hp p hm).not_illFormed hi

theorem ReportsOn.eq_error_iff {r : Except Fault α} (h : ReportsOn v places r) :
    r = .error f ↔ FailsFirst v places f := by
  cases r with
  | ok a =>
    refine iff_of_false (fun he => by cases he) fun hf => ?_
    obtain ⟨p, hm, hi⟩ := hf.exists_illFormed
    exact (h p hm).not_illFormed hi
  | error g =>
    constructor
    · rintro ⟨⟩
      exact h
    · intro hf
      rw [hf.unique h]

end Reports

/-! ### Compiled schemas -/

namespace Schema

theorem map_validator_compile (v : Vocabulary) (path : String) (S : Schema) :
    (S.compile v path).result.map Compiled.validator = (S.outline v path).build.result := by
  obtain ⟨g, hg, hcompile⟩ := exists_compile_eq v path S
  rw [hcompile, ← Traced.result_reportingFault (S.outline v path).build]
  generalize (S.outline v path).build.reportingFault = x
  cases h : x.result with
  | error f =>
    rw [Traced.bind_of_error h]
    rfl
  | ok val =>
    rw [Traced.bind_of_ok h]
    exact congrArg Except.ok (hg val)

theorem exists_compile_of_wellFormed {v : Vocabulary} {path : String} {S : Schema}
    (h : (S.outline v path).WellFormed) : ∃ c, (S.compile v path).result = .ok c := by
  obtain ⟨val, hval⟩ := Outline.exists_build_of_wellFormed h
  rw [← map_validator_compile] at hval
  obtain ⟨c, hc, -⟩ := map_eq_ok_iff.mp hval
  exact ⟨c, hc⟩

theorem reportsOn_compile (v : Vocabulary) (path : String) (S : Schema) :
    ReportsOn v ((S.place path).reached v) (S.compile v path).result :=
  (logged_compile v path S).reportsOn

/-- **A schema compiles exactly if all reached places are well-formed.** Otherwise it has the fault
of the first that is not, in pre-order. What is not reached has no say: without it the schema
compiles to the same. -/
theorem compile_fails_first (v : Vocabulary) (path : String) (S : Schema) :
    ((∃ c, (S.compile v path).result = .ok c) ↔
      ∀ p, Reaches v (S.place path) p → p.WellFormed v) ∧
    (∀ f, (S.compile v path).result = .error f ↔
      FailsFirst v ((S.place path).reached v) f) ∧
    (S.pruned v).compile v path = S.compile v path := by
  have hr := reportsOn_compile v path S
  refine ⟨?_, fun f => hr.eq_error_iff, compile_pruned v path S⟩
  rw [hr.eq_ok_iff]
  exact forall_congr' fun p => imp_congr_left Place.mem_reached_iff

-- what is behind the scalar is not reached, and the last field is never looked at
example : ((fields (.ofList [("flag", .triple (.kind .string) false (some (.named "date"))),
    ("when", .named "date-required"),
    ("list", .triple (.kind .object) true (some (.kind .any)))])).compile .builtin "body").result.map
      (fun _ => ()) = .error (.unsupportedType "date-required" "body.when") := by decide +kernel

end Schema

end ShorthandSchema
