import PhotoNaming.Journal

/-! Steps that may end in a fault, one behind the other: when there is a result in the end, and which, and
what all faults that they may end in have in common. -/
namespace PhotoNaming

section Except

variable {ε α β : Type} {step : Except ε α} {next : α → Except ε β} {a : α} {b : β}

theorem ok_bind (a : α) (next : α → Except ε β) : Except.ok a >>= next = next a := rfl

theorem error_bind (fault : ε) (next : α → Except ε β) : Except.error fault >>= next = .error fault := rfl

theorem bind_eq_ok_iff : step >>= next = .ok b ↔ ∃ a, step = .ok a ∧ next a = .ok b := by
  cases step with
  | error fault => simp [error_bind]
  | ok a => simp [ok_bind]

theorem bind_eq_error_iff {fault : ε} :
    step >>= next = .error fault ↔ step = .error fault ∨ ∃ a, step = .ok a ∧ next a = .error fault := by
  cases step with
  | error other => simp [error_bind]
  | ok a => simp [ok_bind]

theorem map_eq_ok_iff {f : α → β} : step.map f = .ok b ↔ ∃ a, step = .ok a ∧ f a = b := by
  cases step <;> simp [Except.map]

theorem map_eq_error_iff {f : α → β} {fault : ε} : step.map f = .error fault ↔ step = .error fault := by
  cases step <;> simp [Except.map]

theorem mapError_eq_ok_iff {f : ε → β} : step.mapError f = .ok a ↔ step = .ok a := by
  cases step with
  | error fault => exact ⟨nofun, nofun⟩
  | ok found => exact ⟨fun h => by rw [Except.ok.inj h], fun h => congrArg Except.ok (Except.ok.inj h)⟩

theorem toOption_eq_some_iff : step.toOption = some a ↔ step = .ok a := by
  cases step <;> simp [Except.toOption]

theorem exists_eq_ok_of_isOk (h : step.isOk) : ∃ a, step = .ok a := by
  cases step with
  | error fault => cases h
  | ok a => exact ⟨a, rfl⟩

/-- All faults that a step may end in have a property. -/
def FailsOnly (p : ε → Prop) (step : Except ε α) : Prop := ∀ fault, step = .error fault → p fault

namespace FailsOnly

variable {p : ε → Prop}

theorem ok (a : α) : FailsOnly p (.ok a : Except ε α) := nofun

theorem error {fault : ε} (h : p fault) : FailsOnly p (.error fault : Except ε α) := by
  rintro _ ⟨⟩
  exact h

theorem ite {c : Prop} [Decidable c] {fault : ε} (h : p fault) :
    FailsOnly p (if c then .ok a else .error fault) := by
  split
  · exact ok a
  · exact error h

theorem bind (h : FailsOnly p step) (hn : ∀ a, FailsOnly p (next a)) : FailsOnly p (step >>= next) := by
  intro fault hf
  rcases bind_eq_error_iff.mp hf with hf | ⟨a, _, hf⟩
  · exact h fault hf
  · exact hn a fault hf

theorem map (h : FailsOnly p step) (f : α → β) : FailsOnly p (step.map f) := by
  cases step with
  | error fault => exact error (h fault rfl)
  | ok a => exact ok (f a)

theorem mapError {f : ε → β} {q : β → Prop} (h : FailsOnly (fun fault => q (f fault)) step) :
    FailsOnly q (step.mapError f) := by
  cases step with
  | error fault => exact error (h fault rfl)
  | ok a => exact ok a

theorem mapM {f : α → Except ε β} (h : ∀ a, FailsOnly p (f a)) (as : List α) : FailsOnly p (as.mapM f) := by
  induction as with
  | nil => exact ok []
  | cons a as ih =>
    rw [List.mapM_cons]
    exact (h a).bind fun b => ih.bind fun bs => ok (b :: bs)

end FailsOnly

end Except

namespace Logged

variable {ε α β : Type} {step : Logged ε α} {next : α → Logged ε β} {b : β}

theorem result_bind_eq_ok_iff :
    (step.bind next).result = .ok b ↔ ∃ a, step.result = .ok a ∧ (next a).result = .ok b := by
  rw [bind]
  cases step.result <;> simp

theorem result_mapError_eq_ok_iff {f : ε → β} {a : α} :
    (step.mapError f).result = .ok a ↔ step.result = .ok a :=
  mapError_eq_ok_iff

end Logged

end PhotoNaming
