import Mathlib.Data.List.Forall2

/-!
# Steps and traversals that may fail

What follows a step that may fail has a value only if the step has one. Applying a function that
may fail to the elements of a list in order gives the list of its values, or the error of the first
element at which it fails.
-/

namespace CnfSolver

theorem exists_first_not {α : Type} {P : α → Prop} [DecidablePred P] {xs : List α}
    (h : ∃ x ∈ xs, ¬P x) :
    ∃ before x after, xs = before ++ x :: after ∧ (∀ y ∈ before, P y) ∧ ¬P x := by
  cases hfind : xs.find? fun x => decide (¬P x) with
  | none =>
      obtain ⟨x, hx, hnot⟩ := h
      exact absurd (decide_eq_true hnot) (List.find?_eq_none.1 hfind x hx)
  | some x =>
      obtain ⟨hx, before, after, hsplit, hbefore⟩ := List.find?_eq_some_iff_append.1 hfind
      exact ⟨before, x, after, hsplit, fun y hy => by simpa using hbefore y hy, by simpa using hx⟩

theorem exists_of_map_eq_ok {ε α β : Type} {g : α → β} {r : Except ε α} {b : β}
    (h : r.map g = .ok b) : ∃ a, r = .ok a ∧ g a = b := by
  cases r with
  | error e => exact nomatch h
  | ok a => exact ⟨a, rfl, Except.ok.inj h⟩

variable {ε α β : Type} {f : α → Except ε β}

theorem bind_eq_ok_iff {r : Except ε α} {b : β} :
    r.bind f = .ok b ↔ ∃ a, r = .ok a ∧ f a = .ok b := by
  cases r with
  | error e => simp [Except.bind]
  | ok a => simp [Except.bind]

theorem mapM_append_cons_of_error {before : List α} (hbefore : ∀ y ∈ before, ∃ z, f y = .ok z)
    {x : α} {e : ε} (hx : f x = .error e) (after : List α) :
    (before ++ x :: after).mapM f = .error e := by
  induction before with
  | nil =>
      rw [List.nil_append, List.mapM_cons, hx]
      rfl
  | cons y before ih =>
      obtain ⟨⟨z, hz⟩, hrest⟩ := List.forall_mem_cons.1 hbefore
      rw [List.cons_append, List.mapM_cons, hz, ih hrest]
      rfl

theorem mapM_of_forall₂ {xs : List α} {ys : List β}
    (h : List.Forall₂ (fun x y => f x = .ok y) xs ys) : xs.mapM f = .ok ys := by
  induction h with
  | nil => rfl
  | cons hfirst _ ih =>
      rw [List.mapM_cons, hfirst, ih]
      rfl

/-- A traversal has values at all elements or fails at the first that has none. -/
theorem mapM_cases (f : α → Except ε β) (xs : List α) :
    (∃ ys, xs.mapM f = .ok ys ∧ List.Forall₂ (fun x y => f x = .ok y) xs ys) ∨
    ∃ before x after e, xs = before ++ x :: after ∧ (∀ y ∈ before, ∃ z, f y = .ok z) ∧
      f x = .error e ∧ xs.mapM f = .error e := by
  induction xs with
  | nil => exact .inl ⟨[], rfl, .nil⟩
  | cons x xs ih =>
      cases hx : f x with
      | error e =>
          refine .inr ⟨[], x, xs, e, rfl, List.forall_mem_nil _, hx, ?_⟩
          exact mapM_append_cons_of_error (List.forall_mem_nil _) hx xs
      | ok y =>
          rcases ih with ⟨ys, -, hys⟩ | ⟨before, x', after, e, rfl, hbefore, hx', -⟩
          · exact .inl ⟨y :: ys, mapM_of_forall₂ (.cons hx hys), .cons hx hys⟩
          · have hall : ∀ y ∈ x :: before, ∃ z, f y = .ok z :=
              List.forall_mem_cons.2 ⟨⟨y, hx⟩, hbefore⟩
            exact .inr ⟨x :: before, x', after, e, rfl, hall, hx',
              mapM_append_cons_of_error hall hx' after⟩

theorem mapM_eq_ok_iff {xs : List α} {ys : List β} :
    xs.mapM f = .ok ys ↔ List.Forall₂ (fun x y => f x = .ok y) xs ys := by
  refine ⟨fun h => ?_, mapM_of_forall₂⟩
  rcases mapM_cases f xs with ⟨ys', hok, hvalues⟩ | ⟨_, _, _, e, _, _, _, herror⟩
  · obtain rfl := Except.ok.inj (hok.symm.trans h)
    exact hvalues
  · exact nomatch herror.symm.trans h

theorem mapM_ok_cons_iff {x : α} {xs : List α} {ys : List β} :
    (x :: xs).mapM f = .ok ys ↔
      ∃ y ys', f x = .ok y ∧ xs.mapM f = .ok ys' ∧ ys = y :: ys' := by
  simp only [mapM_eq_ok_iff, List.forall₂_cons_left_iff]

theorem exists_mapM_eq_ok {xs : List α} (h : ∀ x ∈ xs, ∃ y, f x = .ok y) :
    ∃ ys, xs.mapM f = .ok ys := by
  rcases mapM_cases f xs with ⟨ys, hok, -⟩ | ⟨before, x, after, e, rfl, -, hx, -⟩
  · exact ⟨ys, hok⟩
  · obtain ⟨y, hy⟩ := h x (by simp)
    exact nomatch hy.symm.trans hx

theorem mapM_eq_error_iff {xs : List α} {e : ε} :
    xs.mapM f = .error e ↔
      ∃ before x after, xs = before ++ x :: after ∧ (∀ y ∈ before, ∃ z, f y = .ok z) ∧
        f x = .error e := by
  constructor
  · intro h
    rcases mapM_cases f xs with
      ⟨ys, hok, -⟩ | ⟨before, x, after, e', heq, hbefore, hx, herror⟩
    · exact nomatch hok.symm.trans h
    · obtain rfl := Except.error.inj (herror.symm.trans h)
      exact ⟨before, x, after, heq, hbefore, hx⟩
  · rintro ⟨before, x, after, rfl, hbefore, hx⟩
    exact mapM_append_cons_of_error hbefore hx after

end CnfSolver
