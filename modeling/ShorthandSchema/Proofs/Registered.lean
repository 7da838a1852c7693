import ShorthandSchema.Proofs.Evaluation

/-! # Registered names: a vocabulary with one more

A name that the vocabulary does not have can be registered without an effect on anything that
compiles. The two compilations go on in step: they look up the same names at the same places, and
the first that has another kind in the larger vocabulary is one that the smaller does not have, so
there the compilation without it stops.

* `KeptUnless`: two computations that are the same unless the first stops there.
* `Schema.compile_register`: what compiles is compiled to the same, with the same events. -/

namespace ShorthandSchema

variable {α β : Type} {v : Vocabulary} {name : String}

/-! ### Computations with one more name -/

/-- **A result that stops at a type name** that is looked up as `name`. -/
def StopsAt (name : String) (x : Except Fault α) : Prop :=
  ∃ typeName path, Vocabulary.key (splitMark typeName).1 = Vocabulary.key name ∧
    x = .error (.unsupportedType typeName path)

theorem StopsAt.bind {x : Except Fault α} (h : StopsAt name x) (f : α → Except Fault β) :
    StopsAt name (x >>= f) := by
  obtain ⟨typeName, path, hkey, rfl⟩ := h
  exact ⟨typeName, path, hkey, rfl⟩

namespace Traced

variable {x y : Traced Fault α}

/-- **The same computation, unless the first stops** at a type name that is looked up as `name`. -/
def KeptUnless (name : String) (x y : Traced Fault α) : Prop := y = x ∨ StopsAt name x.result

theorem KeptUnless.refl (name : String) (x : Traced Fault α) : KeptUnless name x x := Or.inl rfl

theorem KeptUnless.bind {f g : α → Traced Fault β} (h : KeptUnless name x y)
    (hfg : ∀ a, KeptUnless name (f a) (g a)) : KeptUnless name (x >>= f) (y >>= g) := by
  rcases h with rfl | ⟨typeName, path, hkey, hx⟩
  · cases hy : y.result with
    | error e =>
      rw [bind_of_error hy, bind_of_error hy]
      exact .refl name _
    | ok a =>
      rw [bind_of_ok hy, bind_of_ok hy]
      rcases hfg a with ha | ha
      · rw [ha]
        exact .refl name _
      · exact Or.inr ha
  · rw [bind_of_error hx]
    exact Or.inr ⟨typeName, path, hkey, rfl⟩

theorem KeptUnless.reportingFault (h : KeptUnless name x y) :
    KeptUnless name x.reportingFault y.reportingFault := by
  rcases h with rfl | hx
  · exact .refl name _
  · exact Or.inr (by rw [result_reportingFault]; exact hx)

end Traced

open Traced (KeptUnless)

/-! ### Descriptors -/

/-- A registration gives a type another kind only if it had none, and its name is the one that is
registered. -/
theorem Vocabulary.typeOf_register (h : v.lookup name = none) (k : Kind) (path : String)
    (type : TypeRef) :
    (v.register name k).typeOf path type = v.typeOf path type ∨
      StopsAt name (v.typeOf path type) := by
  cases type with
  | kind k => exact Or.inl rfl
  | name typeName =>
    rw [typeOf, typeOf, lookup_register]
    split_ifs with hkey
    · have hnone : v.lookup (splitMark typeName).1 = none := by
        rw [lookup, hkey]
        exact h
      exact Or.inr ⟨typeName, path, hkey, by rw [hnone]⟩
    · exact Or.inl rfl

namespace Schema

theorem describe_register (h : v.lookup name = none) (k : Kind) (path : String) (S : Schema) :
    S.describe (v.register name k) path = S.describe v path ∨ StopsAt name (S.describe v path) := by
  cases S with
  | kind | fields | described => exact Or.inl rfl
  | named typeName =>
    rw [describe, describe]
    rcases Vocabulary.typeOf_register h k path (.name typeName) with ht | ht
    · exact Or.inl (by rw [ht])
    · exact Or.inr (ht.bind _)
  | triple type required sub =>
    rw [describe, describe]
    rcases Vocabulary.typeOf_register h k path type with ht | ht
    · exact Or.inl (by rw [ht])
    · exact Or.inr (ht.bind _)

end Schema

/-! ### Outlines -/

namespace Outline

theorem keptUnless_buildFields {fields : List (String × α)} {o o' : String × α → Outline}
    (h : ∀ f ∈ fields, KeptUnless name (o f).build (o' f).build) :
    KeptUnless name (buildFields (fields.map fun f => (f.1, o f)))
      (buildFields (fields.map fun f => (f.1, o' f))) := by
  induction fields with
  | nil => exact .refl name _
  | cons f rest ih =>
    rw [List.map_cons, List.map_cons, buildFields, buildFields]
    have hrest := ih fun g hg => h g (List.mem_cons_of_mem _ hg)
    exact (h f List.mem_cons_self).bind fun inner => hrest.bind fun others => .refl name _

theorem keptUnless_build {d : Descriptor α} {o o' : String → α → Outline}
    (hitems : ∀ s ∈ d.items, ∀ path, KeptUnless name (o path s).build (o' path s).build)
    (hfields : ∀ f ∈ d.fieldList, ∀ path, KeptUnless name (o path f.2).build (o' path f.2).build) :
    KeptUnless name (d.outline o).build (d.outline o').build := by
  unfold Descriptor.outline
  split
  · rw [build, build]
    refine (KeptUnless.refl name _).bind fun _ => KeptUnless.bind ?_ fun _ => .refl name _
    cases hi : d.items with
    | none => exact .refl name _
    | some s => exact hitems s hi _
  · rw [build, build]
    refine (KeptUnless.refl name _).bind fun _ => KeptUnless.bind ?_ fun _ => .refl name _
    exact keptUnless_buildFields fun f hf => hfields f hf _
  · exact .refl name _

end Outline

namespace Schema

theorem keptUnless_build (h : v.lookup name = none) (k : Kind) (path : String) (S : Schema) :
    KeptUnless name (S.outline v path).build (S.outline (v.register name k) path).build := by
  induction path, S using Schema.induction v with
  | step path S ih =>
    rcases describe_register h k path S with hd | ⟨typeName, place, hkey, hd⟩
    · cases hv : S.describe v path with
      | error f =>
        rw [outline_of_fault hv, outline_of_fault (hd.trans hv)]
        exact .refl name _
      | ok d =>
        rw [outline_of_describe hv, outline_of_describe (hd.trans hv)]
        exact Outline.keptUnless_build (ih d hv).1 (ih d hv).2
    · rw [outline_of_fault hd]
      exact Or.inr ⟨typeName, place, hkey, rfl⟩

/-! ### Compiled schemas -/

theorem keptUnless_compile (h : v.lookup name = none) (k : Kind) (path : String) (S : Schema) :
    KeptUnless name (S.compile v path) (S.compile (v.register name k) path) := by
  refine KeptUnless.reportingFault ?_
  rcases describe_register h k path S with hd | hd
  · rw [hd]
    refine (KeptUnless.refl name _).bind fun d => KeptUnless.bind ?_ fun _ => .refl name _
    exact Outline.keptUnless_build (fun s _ p => keptUnless_build h k p s)
      fun f _ p => keptUnless_build h k p f.2
  · obtain ⟨typeName, place, hkey, hv⟩ := hd
    rw [hv, Traced.of_error_bind]
    exact Or.inr ⟨typeName, place, hkey, rfl⟩

/-- **A name that the vocabulary does not have can be registered safely.** What compiles without it
compiles with it, to the same name, kind, mark and validator, and with the same events. A
compilation that it changes is one that stopped at the name, as a type that is not supported. -/
theorem compile_register (h : v.lookup name = none) (k : Kind) (path : String) (S : Schema) :
    (∀ c, (S.compile v path).result = .ok c →
      ((S.compile (v.register name k) path).result = .ok c ∧
        S.compile (v.register name k) path = S.compile v path)) ∧
    (S.compile (v.register name k) path ≠ S.compile v path →
      ∃ typeName place, Vocabulary.key (splitMark typeName).1 = Vocabulary.key name ∧
        (S.compile v path).result = .error (.unsupportedType typeName place)) := by
  have hkept := keptUnless_compile h k path S
  refine ⟨fun c hc => ?_, fun hne => hkept.resolve_left hne⟩
  rcases hkept with heq | ⟨typeName, place, -, hfault⟩
  · exact ⟨by rw [heq, hc], heq⟩
  · cases hfault.symm.trans hc

/-- With dates the order compiles to the same. Only a schema that asks for a date is changed: it
stops without them. -/
theorem compile_register_date :
    Vocabulary.builtin.lookup "Date" = none ∧
      (∃ c, (orderSchema.compile .builtin "order").result = .ok c ∧
        (orderSchema.compile (Vocabulary.builtin.register "Date" .string) "order").result = .ok c) ∧
      (named "date-required").compile (Vocabulary.builtin.register "Date" .string) "born" ≠
        (named "date-required").compile .builtin "born" ∧
      ∃ typeName place, Vocabulary.key (splitMark typeName).1 = Vocabulary.key "Date" ∧
        ((named "date-required").compile .builtin "born").result =
          .error (.unsupportedType typeName place) := by
  have hnone : Vocabulary.builtin.lookup "Date" = none := by decide +kernel
  obtain ⟨c, hc⟩ := orderSchema_compiles
  have horder := (compile_register hnone .string "order" orderSchema).1 c hc
  have hne : (named "date-required").compile (Vocabulary.builtin.register "Date" .string) "born" ≠
      (named "date-required").compile .builtin "born" := by
    intro heq
    have hok := congrArg (fun x => x.result.isOk) heq
    revert hok
    decide +kernel
  exact ⟨hnone, ⟨c, hc, horder.1⟩, hne,
    (compile_register hnone .string "born" (named "date-required")).2 hne⟩

end Schema

end ShorthandSchema
