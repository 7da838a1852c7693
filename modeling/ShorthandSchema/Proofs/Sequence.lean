import Mathlib.Data.List.Forall2
import Mathlib.Data.List.Perm.Basic

/-! # Results: one after the other

A list of results that are computed one after the other, up to the first failure.

* `mapM_eq_ok_iff`: all succeed, each with its own result.
* `mapM_mapError`: a change of failures acts on each of them.
* `exists_mapM_of_perm`: a list in another order succeeds with the results in another order.
* `Corresponds`: two results side by side, and `Corresponds.mapM` for two lists of them. -/

namespace ShorthandSchema

variable {α β γ ε δ : Type}

/-! ### Single results -/

@[simp]
theorem mapError_ok (f : ε → δ) (a : α) : (Except.ok a).mapError f = .ok a := rfl

@[simp]
theorem mapError_error (f : ε → δ) (e : ε) :
    (Except.error e : Except ε α).mapError f = .error (f e) := rfl

theorem mapError_map (f : ε → δ) (g : α → β) (x : Except ε α) :
    (x.map g).mapError f = (x.mapError f).map g := by
  cases x <;> rfl

theorem map_eq_ok_iff {g : α → β} {x : Except ε α} {b : β} :
    x.map g = .ok b ↔ ∃ a, x = .ok a ∧ g a = b := by
  cases x <;> simp [Except.map]

theorem mapError_eq_ok_iff {f : ε → δ} {x : Except ε α} {a : α} :
    x.mapError f = .ok a ↔ x = .ok a := by
  cases x <;> simp

/-! ### Lists of results -/

theorem mapM_cons_ok (f : α → Except ε β) {a : α} {b : β} (h : f a = .ok b) (l : List α) :
    (a :: l).mapM f = (l.mapM f).map (b :: ·) := by
  rw [List.mapM_cons, h]
  cases hl : l.mapM f <;> rfl

theorem mapM_cons_error (f : α → Except ε β) {a : α} {e : ε} (h : f a = .error e) (l : List α) :
    (a :: l).mapM f = .error e := by
  rw [List.mapM_cons, h]
  rfl

theorem mapM_append_error (f : α → Except ε β) {done : List α} {outs : List β} {a : α} {e : ε}
    (hdone : done.mapM f = .ok outs) (ha : f a = .error e) (rest : List α) :
    (done ++ a :: rest).mapM f = .error e := by
  rw [List.mapM_append, hdone, mapM_cons_error f ha]
  rfl

theorem mapM_eq_ok_iff {f : α → Except ε β} {l : List α} {out : List β} :
    l.mapM f = .ok out ↔ List.Forall₂ (fun a b => f a = .ok b) l out := by
  induction l generalizing out with
  | nil =>
    show Except.ok [] = Except.ok out ↔ _
    rw [List.forall₂_nil_left_iff, Except.ok.injEq, eq_comm]
  | cons a l ih =>
    cases h : f a with
    | error e => simp [mapM_cons_error f h, List.forall₂_cons_left_iff, h]
    | ok b =>
      rw [mapM_cons_ok f h, map_eq_ok_iff, List.forall₂_cons_left_iff]
      constructor
      · rintro ⟨bs, hbs, rfl⟩
        exact ⟨b, bs, h, ih.mp hbs, rfl⟩
      · rintro ⟨b', bs, hb, hbs, rfl⟩
        rw [h] at hb
        cases hb
        exact ⟨bs, ih.mpr hbs, rfl⟩

theorem exists_of_forall₂ {r : α → β → Prop} {l : List α} {l' : List β}
    (h : List.Forall₂ r l l') {a : α} (ha : a ∈ l) : ∃ b ∈ l', r a b := by
  induction h with
  | nil => cases ha
  | cons hab _ ih =>
    rcases List.mem_cons.mp ha with rfl | ha
    · exact ⟨_, List.mem_cons_self, hab⟩
    · obtain ⟨b, hb, hr⟩ := ih ha
      exact ⟨b, List.mem_cons_of_mem _ hb, hr⟩

theorem forall₂_and_mem {r : α → β → Prop} {l : List α} {l' : List β} (h : List.Forall₂ r l l') :
    List.Forall₂ (fun a b => a ∈ l ∧ b ∈ l' ∧ r a b) l l' := by
  have hright := ((List.forall₂_and_left _ _).mpr ⟨fun _ hb => hb, h.flip⟩).flip
  exact (List.forall₂_and_left _ _).mpr ⟨fun _ ha => ha, hright⟩

theorem map_eq_map_iff_forall₂ {f : α → γ} {g : β → γ} {l : List α} {l' : List β} :
    l.map f = l'.map g ↔ List.Forall₂ (fun a b => f a = g b) l l' := by
  rw [← List.forall₂_eq_eq_eq, List.forall₂_map_left_iff, List.forall₂_map_right_iff]

theorem mapM_eq_of_forall₂ {f : α → Except ε β} {g : γ → Except ε β} {l : List α} {l' : List γ}
    (h : List.Forall₂ (fun a c => f a = g c) l l') : l.mapM f = l'.mapM g := by
  induction h with
  | nil => rfl
  | cons hac _ ih => rw [List.mapM_cons, List.mapM_cons, hac, ih]

theorem mapM_eq_ok_of_forall₂ {f : α → Except ε β} {g : γ → Except ε β} {l : List α} {l' : List γ}
    (h : List.Forall₂ (fun a c => ∀ b, f a = .ok b → g c = .ok b) l l') {outs : List β}
    (houts : l.mapM f = .ok outs) : l'.mapM g = .ok outs := by
  rw [mapM_eq_ok_iff] at houts ⊢
  induction h generalizing outs with
  | nil =>
    cases houts
    exact .nil
  | cons hac _ ih =>
    cases houts with
    | cons hb houts => exact .cons (hac _ hb) (ih houts)

theorem mapM_congr_of_mem {f g : α → Except ε β} {l : List α} (h : ∀ a ∈ l, f a = g a) :
    l.mapM f = l.mapM g :=
  mapM_eq_of_forall₂ (List.forall₂_same.mpr h)

theorem map_mapM (f : α → Except ε β) (g : β → γ) (l : List α) :
    (l.mapM f).map (List.map g) = l.mapM fun a => (f a).map g := by
  induction l with
  | nil => rfl
  | cons a l ih =>
    cases h : f a with
    | error e =>
      have h' : (f a).map g = .error e := by rw [h]; rfl
      rw [mapM_cons_error f h, mapM_cons_error (fun a => (f a).map g) h']
      rfl
    | ok b =>
      have h' : (f a).map g = .ok (g b) := by rw [h]; rfl
      rw [mapM_cons_ok f h, mapM_cons_ok (fun a => (f a).map g) h', ← ih]
      cases l.mapM f <;> rfl

theorem mapM_mapError (f : ε → δ) (g : α → Except ε β) (l : List α) :
    (l.mapM g).mapError f = l.mapM fun a => (g a).mapError f := by
  induction l with
  | nil => rfl
  | cons a l ih =>
    cases h : g a with
    | error e =>
      have h' : (g a).mapError f = .error (f e) := by rw [h, mapError_error]
      rw [mapM_cons_error g h, mapM_cons_error (fun a => (g a).mapError f) h', mapError_error]
    | ok b =>
      have h' : (g a).mapError f = .ok b := by rw [h, mapError_ok]
      rw [mapM_cons_ok g h, mapM_cons_ok (fun a => (g a).mapError f) h', mapError_map, ih]

/-! ### Lists in another order -/

/-- **A list in another order succeeds with the results in another order.** -/
theorem exists_mapM_of_perm {f : α → Except ε β} {l l' : List α} (h : l.Perm l') {out : List β}
    (hout : l.mapM f = .ok out) : ∃ out', l'.mapM f = .ok out' ∧ out.Perm out' := by
  obtain ⟨out', hout', hperm⟩ := List.perm_comp_forall₂ h.symm (mapM_eq_ok_iff.mp hout)
  exact ⟨out', mapM_eq_ok_iff.mpr hout', hperm.symm⟩

theorem exists_mapM_eq_ok_iff {f : α → Except ε β} {l : List α} :
    (∃ out, l.mapM f = .ok out) ↔ ∀ a ∈ l, ∃ b, f a = .ok b := by
  constructor
  · rintro ⟨out, hout⟩ a ha
    obtain ⟨b, -, hb⟩ := exists_of_forall₂ (mapM_eq_ok_iff.mp hout) ha
    exact ⟨b, hb⟩
  · intro h
    induction l with
    | nil => exact ⟨[], rfl⟩
    | cons a l ih =>
      obtain ⟨b, hb⟩ := h a List.mem_cons_self
      obtain ⟨out, hout⟩ := ih fun c hc => h c (List.mem_cons_of_mem _ hc)
      exact ⟨b :: out, by rw [mapM_cons_ok f hb, hout]; rfl⟩

/-! ### Results side by side -/

/-- **Results that correspond**: both succeed, with related values, or both fail, with related
failures. -/
inductive Corresponds (F : ε → δ → Prop) (A : α → β → Prop) : Except ε α → Except δ β → Prop
  | ok {a : α} {b : β} (h : A a b) : Corresponds F A (.ok a) (.ok b)
  | error {e : ε} {d : δ} (h : F e d) : Corresponds F A (.error e) (.error d)

namespace Corresponds

variable {α' β' ε' δ' : Type} {F : ε → δ → Prop} {A : α → β → Prop} {x : Except ε α}
  {y : Except δ β}

theorem exists_ok_iff (h : Corresponds F A x y) : (∃ a, x = .ok a) ↔ ∃ b, y = .ok b := by
  cases h <;> simp

theorem imp {B : α → β → Prop} (h : Corresponds F A x y) (hB : ∀ a b, A a b → B a b) :
    Corresponds F B x y := by
  cases h with
  | ok h => exact .ok (hB _ _ h)
  | error h => exact .error h

theorem imp_error {G : ε → δ → Prop} (h : Corresponds F A x y) (hG : ∀ e d, F e d → G e d) :
    Corresponds G A x y := by
  cases h with
  | ok h => exact .ok h
  | error h => exact .error (hG _ _ h)

theorem map {B : α' → β' → Prop} {f : α → α'} {g : β → β'} (h : Corresponds F A x y)
    (hB : ∀ a b, A a b → B (f a) (g b)) : Corresponds F B (x.map f) (y.map g) := by
  cases h with
  | ok h => exact .ok (hB _ _ h)
  | error h => exact .error h

theorem mapError {G : ε' → δ' → Prop} {f : ε → ε'} {g : δ → δ'} (h : Corresponds F A x y)
    (hG : ∀ e d, F e d → G (f e) (g d)) : Corresponds G A (x.mapError f) (y.mapError g) := by
  cases h with
  | ok h => exact .ok h
  | error h => exact .error (hG _ _ h)

theorem eq_ok_iff {x : Except ε α} {y : Except δ α} (h : Corresponds F Eq x y) (a : α) :
    x = .ok a ↔ y = .ok a := by
  cases h with
  | ok h => rw [h, Except.ok.injEq, Except.ok.injEq]
  | error => simp

theorem of_exists_ok_iff (hF : ∀ e d, F e d) (h : (∃ a, x = .ok a) ↔ ∃ b, y = .ok b)
    (hA : ∀ a b, x = .ok a → y = .ok b → A a b) : Corresponds F A x y := by
  cases x with
  | ok a =>
    obtain ⟨b, rfl⟩ := h.mp ⟨a, rfl⟩
    exact .ok (hA a b rfl rfl)
  | error e =>
    cases y with
    | ok b =>
      obtain ⟨_, ⟨⟩⟩ := h.mpr ⟨b, rfl⟩
    | error d => exact .error (hF e d)

theorem of_map_eq {f : α → γ} {g : β → γ} {x : Except ε α} {y : Except ε β}
    (h : x.map f = y.map g) : Corresponds Eq (fun a b => f a = g b) x y := by
  cases x with
  | ok a =>
    obtain ⟨b, rfl, hb⟩ := map_eq_ok_iff.mp h.symm
    exact .ok hb.symm
  | error e =>
    cases y with
    | ok b => cases h
    | error e' => exact .error (Except.error.inj h)

theorem of_eq_ok_iff {x : Except ε α} {y : Except δ α} (hF : ∀ e d, F e d)
    (h : ∀ a, x = .ok a ↔ y = .ok a) : Corresponds F Eq x y := by
  refine of_exists_ok_iff hF (exists_congr h) fun a b ha hb => ?_
  exact Except.ok.inj (((h a).mp ha).symm.trans hb)

/-- **Lists of results that correspond one by one correspond.** -/
theorem mapM {f : α → Except ε α'} {g : β → Except δ β'} {B : α' → β' → Prop} {l : List α}
    {l' : List β} (h : List.Forall₂ (fun a b => Corresponds F B (f a) (g b)) l l') :
    Corresponds F (List.Forall₂ B) (l.mapM f) (l'.mapM g) := by
  induction h with
  | nil => exact .ok .nil
  | @cons a b l l' hab _ ih =>
    cases ha : f a with
    | ok a' =>
      cases hb : g b with
      | ok b' =>
        rw [ha, hb] at hab
        cases hab with
        | ok hab =>
          rw [mapM_cons_ok f ha, mapM_cons_ok g hb]
          exact ih.map fun _ _ hl => .cons hab hl
      | error d => rw [ha, hb] at hab; cases hab
    | error e =>
      cases hb : g b with
      | ok b' => rw [ha, hb] at hab; cases hab
      | error d =>
        rw [ha, hb] at hab
        cases hab with
        | error hab =>
          rw [mapM_cons_error f ha, mapM_cons_error g hb]
          exact .error hab

end Corresponds

end ShorthandSchema
