import ShorthandSchema.Proofs.Evaluation
import ShorthandSchema.Proofs.Forms

/-! # Written outlines: the tree of nodes that a schema writes

The outline of a schema is read off its written forms: each form has a node, below that of an array
stands the schema of its items, and below that of an object stand the fields that it declares.

* `HasOutline.unique`: there is at most one outline.
* `hasOutline_of_compile`: what compiles is compiled from the outline that it writes. -/

namespace ShorthandSchema.Schema

/-- **The outline that a schema writes** at a path. -/
inductive HasOutline (v : Vocabulary) : String → Schema → Outline → Prop
  | scalar {path : String} {S : Schema} {n : Node} (hn : S.HasNode v path n)
      (harray : n.kind ≠ .array) (hobject : n.kind ≠ .object) : HasOutline v path S (.scalar n)
  | array {path : String} {S : Schema} {n : Node} {below : Schema → Outline}
      (hn : S.HasNode v path n) (hkind : n.kind = .array)
      (hitems : ∀ s ∈ S.items?, HasOutline v (Path.child n.path Path.item) s (below s)) :
      HasOutline v path S (.array n (S.items?.map below))
  | object {path : String} {S : Schema} {n : Node} {below : String × Schema → Outline}
      (hn : S.HasNode v path n) (hkind : n.kind = .object)
      (hfields : ∀ f ∈ S.declared, HasOutline v (Path.child n.path f.1) f.2 (below f)) :
      HasOutline v path S (.object n (S.declared.map fun f => (f.1, below f)))

variable {v : Vocabulary} {path : String} {S : Schema} {o o' : Outline} {c : Compiled}

theorem HasOutline.unique (h : S.HasOutline v path o) : S.HasOutline v path o' → o = o' := by
  induction h generalizing o' with
  | scalar hn harray hobject =>
    intro h'
    cases h' with
    | scalar hn' => rw [hn.unique hn']
    | array hn' hkind => exact absurd hkind (hn.unique hn' ▸ harray)
    | object hn' hkind => exact absurd hkind (hn.unique hn' ▸ hobject)
  | array hn hkind _ ih =>
    intro h'
    cases h' with
    | scalar hn' harray => exact absurd hkind (hn.unique hn' ▸ harray)
    | array hn' _ hitems' =>
      obtain rfl := hn.unique hn'
      rw [Option.map_congr fun s hs => ih s hs (hitems' s hs)]
    | object hn' hkind' =>
      rw [← hn.unique hn', hkind] at hkind'
      cases hkind'
  | object hn hkind _ ih =>
    intro h'
    cases h' with
    | scalar hn' _ hobject => exact absurd hkind (hn.unique hn' ▸ hobject)
    | array hn' hkind' =>
      rw [← hn.unique hn', hkind] at hkind'
      cases hkind'
    | object hn' _ hfields' =>
      obtain rfl := hn.unique hn'
      rw [List.map_congr_left fun f hf => congrArg (Prod.mk f.1) (ih f hf (hfields' f hf))]

theorem HasOutline.node?_eq (h : S.HasOutline v path o) {n : Node} (hn : S.HasNode v path n) :
    o.node? = some n := by
  cases h with
  | scalar hn' | array hn' | object hn' => rw [hn.unique hn']; rfl

theorem hasOutline_of_wellFormed (v : Vocabulary) (path : String) (S : Schema) :
    (S.outline v path).WellFormed → S.HasOutline v path (S.outline v path) := by
  induction path, S using Schema.induction v with
  | step path S ih =>
    intro hw
    cases hd : S.describe v path with
    | error f =>
      rw [outline_of_fault hd] at hw
      cases hw
    | ok d =>
      have hS := describedBy_of_describe hd
      obtain ⟨ihitem, ihfields⟩ := ih d hd
      rw [outline_of_describe hd] at hw ⊢
      unfold Descriptor.outline at hw ⊢
      split at hw
      · rename_i hk
        rw [hS.items hk] at hw ihitem ⊢
        cases hw with
        | array _ hitem =>
          exact .array hS.toHasNode hk fun s hs =>
            ihitem s hs _ (hitem _ (Option.mem_map_of_mem _ hs))
      · rename_i hk
        rw [hS.fields hk] at hw ihfields ⊢
        cases hw with
        | object _ hfields =>
          exact .object hS.toHasNode hk fun f hf =>
            ihfields f hf _ (hfields _ (List.mem_map_of_mem hf))
      · rename_i ha ho
        exact .scalar hS.toHasNode ha ho

/-- **What compiles is compiled from the outline that it writes.** -/
theorem hasOutline_of_compile (h : (S.compile v path).result = .ok c) :
    S.HasOutline v path (S.outline v path) :=
  hasOutline_of_wellFormed v path S (wellFormed_of_compile h)

end ShorthandSchema.Schema
