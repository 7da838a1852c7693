/-! # Entries: lists of named values -/

namespace ShorthandSchema

theorem lookup_cons_ite {α : Type} (name first : String) (value : α)
    (rest : List (String × α)) :
    ((first, value) :: rest).lookup name =
      if name = first then some value else rest.lookup name := by
  by_cases h : name = first
  · simp [h]
  · simp [List.lookup_cons, beq_eq_false_iff_ne.2 h, h]

end ShorthandSchema
