import ShorthandSchema.Event

/-! # Traced results: a result with the events up to it

Events are kept in order, and a failure ends the trace.

* `result_bind_eq_ok`: a sequence succeeds exactly when both parts do.
* `reportingFault`: a fault is reported once, after all other events. -/

namespace ShorthandSchema

/-- **A result with the events up to it.** -/
structure Traced (ε α : Type) where
  events : List Event
  result : Except ε α

namespace Traced

variable {ε α β : Type}

/-- A result without events. -/
def of (r : Except ε α) : Traced ε α := ⟨[], r⟩

/-- A failure without events. -/
def fail (e : ε) : Traced ε α := of (.error e)

/-- A single event. -/
def emit (e : Event) : Traced ε Unit := ⟨[e], .ok ()⟩

/-- The second computation, applied to the result of the first, with the events of both. -/
def andThen (x : Traced ε α) (f : α → Traced ε β) : Traced ε β :=
  match x.result with
  | .ok a => ⟨x.events ++ (f a).events, (f a).result⟩
  | .error e => ⟨x.events, .error e⟩

instance : Monad (Traced ε) where
  pure a := of (.ok a)
  bind := andThen

/-! ### Sequences -/

theorem bind_of_ok {x : Traced ε α} {a : α} (h : x.result = .ok a) (f : α → Traced ε β) :
    x >>= f = ⟨x.events ++ (f a).events, (f a).result⟩ := by
  show x.andThen f = _
  rw [andThen, h]

theorem bind_of_error {x : Traced ε α} {e : ε} (h : x.result = .error e) (f : α → Traced ε β) :
    x >>= f = ⟨x.events, .error e⟩ := by
  show x.andThen f = _
  rw [andThen, h]

@[simp]
theorem emit_bind (e : Event) (f : Unit → Traced ε β) :
    emit e >>= f = ⟨e :: (f ()).events, (f ()).result⟩ := bind_of_ok rfl f

@[simp]
theorem of_ok_bind (a : α) (f : α → Traced ε β) : of (.ok a) >>= f = f a := by
  rw [bind_of_ok rfl]
  rfl

@[simp]
theorem of_error_bind (e : ε) (f : α → Traced ε β) : of (.error e) >>= f = fail e :=
  bind_of_error rfl f

theorem result_bind_eq_ok {x : Traced ε α} {f : α → Traced ε β} {b : β} :
    (x >>= f).result = .ok b ↔ ∃ a, x.result = .ok a ∧ (f a).result = .ok b := by
  cases h : x.result with
  | ok a => simp [bind_of_ok h]
  | error e => simp [bind_of_error h]

/-! ### Faults -/

/-- A computation whose fault is reported at its end. -/
def reportingFault (x : Traced Fault α) : Traced Fault α :=
  match x.result with
  | .ok _ => x
  | .error f => ⟨x.events ++ [.rejected f], .error f⟩

@[simp]
theorem result_reportingFault (x : Traced Fault α) : x.reportingFault.result = x.result := by
  unfold reportingFault
  split <;> simp_all

theorem reportingFault_of_ok {x : Traced Fault α} {a : α} (h : x.result = .ok a) :
    x.reportingFault = x := by rw [reportingFault, h]

theorem reportingFault_of_error {x : Traced Fault α} {f : Fault} (h : x.result = .error f) :
    x.reportingFault = ⟨x.events ++ [.rejected f], .error f⟩ := by rw [reportingFault, h]

/-- **A sequence reports the fault of the part that has it**, after all other events. -/
theorem reportingFault_bind (x : Traced Fault α) (f : α → Traced Fault β) :
    (x >>= f).reportingFault = x.reportingFault >>= fun a => (f a).reportingFault := by
  cases h : x.result with
  | ok a =>
    rw [reportingFault_of_ok h, bind_of_ok h, bind_of_ok h]
    cases ha : (f a).result with
    | ok b => rw [reportingFault_of_ok rfl, reportingFault_of_ok ha, ha]
    | error e =>
      rw [reportingFault_of_error rfl, reportingFault_of_error ha, List.append_assoc]
  | error e =>
    rw [reportingFault_of_error h, bind_of_error h, bind_of_error rfl, reportingFault_of_error rfl]

end Traced

end ShorthandSchema
