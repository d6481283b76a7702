import CnfSolver.Transcript

/-!
# Transcripts one part at a time

What a sequence of computations prints and logs and what it results in, given that its first part
succeeds.
-/

namespace CnfSolver.Transcript

variable {α β : Type}

theorem bind_of_ok {t : Transcript α} {a : α} (h : t.result = .ok a) (f : α → Transcript β) :
    t.bind f = ⟨t.output ++ (f a).output, t.events ++ (f a).events, (f a).result⟩ := by
  rw [bind, h]

theorem bind_of_error {t : Transcript α} {e : Error} (h : t.result = .error e)
    (f : α → Transcript β) : t.bind f = ⟨t.output, t.events, .error e⟩ := by
  rw [bind, h]

theorem result_bind_of_ok {t : Transcript α} {a : α} (h : t.result = .ok a)
    (f : α → Transcript β) : (t.bind f).result = (f a).result := by
  rw [bind_of_ok h]

theorem events_bind_done (t : Transcript α) (f : α → β) :
    (t.bind fun a => .done (f a)).events = t.events := by
  cases hr : t.result with
  | ok a => rw [bind_of_ok hr]; exact List.append_nil _
  | error e => rw [bind_of_error hr]

theorem result_bind_done (t : Transcript α) (f : α → β) :
    (t.bind fun a => .done (f a)).result = t.result.map f := by
  cases hr : t.result with
  | ok a => rw [result_bind_of_ok hr]; rfl
  | error e => rw [bind_of_error hr]; rfl

theorem result_bind_done_eq_error {t : Transcript α} {f : α → β} {e : Error} :
    (t.bind fun a => .done (f a)).result = .error e ↔ t.result = .error e := by
  rw [result_bind_done]
  cases t.result with
  | ok a => simp [Except.map]
  | error e' => simp [Except.map]

/-! ## Errors in the log -/

def errors (t : Transcript α) : List Event := t.events.filter fun e => e.level = .error

theorem errors_bind_of_ok {t : Transcript α} {a : α} (h : t.result = .ok a)
    (f : α → Transcript β) : (t.bind f).errors = t.errors ++ (f a).errors := by
  rw [bind_of_ok h]
  exact List.filter_append ..

structure IsQuiet (t : Transcript α) : Prop where
  output : t.output = []
  errors : t.errors = []

theorem isQuiet_log {e : Event} (h : e.level ≠ .error) : (log e).IsQuiet where
  output := rfl
  errors := List.filter_cons_of_neg (by simpa using h)

theorem IsQuiet.bind {t : Transcript α} {f : α → Transcript β} (ht : t.IsQuiet)
    (hf : ∀ a, (f a).IsQuiet) : (t.bind f).IsQuiet := by
  cases hr : t.result with
  | error e =>
      rw [bind_of_error hr]
      exact ⟨ht.output, ht.errors⟩
  | ok a =>
      refine ⟨?_, ?_⟩
      · rw [bind_of_ok hr, ht.output, (hf a).output, List.append_nil]
      · rw [errors_bind_of_ok hr, ht.errors, (hf a).errors, List.append_nil]

end CnfSolver.Transcript
