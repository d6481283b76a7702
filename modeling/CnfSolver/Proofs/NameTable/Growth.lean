import CnfSolver.NameTable

/-!
# Name tables grow at the end

A table changes only by numbering a name, so what numbering keeps is kept by all encoding, and
whether or not the encoding succeeds. The names that were there keep their numbers and new ones come
behind them.
-/

namespace CnfSolver.NameTable

theorem number_cases (t : NameTable) (name : String) :
    (∃ i, t.find? name = some i ∧ t.number name = (t, i)) ∨
    (t.find? name = none ∧
      t.number name = (⟨t.names ++ [name], t.numbers ++ [(name, t.size)]⟩, t.size)) := by
  cases h : t.find? name with
  | some i => exact .inl ⟨i, rfl, by rw [number, h]⟩
  | none => exact .inr ⟨rfl, by rw [number, h]⟩

theorem encode_cons_ok (t : NameTable) (s : SignedName) (rest : List (Except Error SignedName)) :
    t.encode (.ok s :: rest) =
      (((t.number s.name).1.encode rest).1,
        ((t.number s.name).1.encode rest).2.map
          (Literal.of (t.number s.name).2 s.negated :: ·)) := by
  rw [encode]
  cases t.number s.name with
  | mk t₁ i =>
      simp only
      split <;> next heq => rw [heq]; rfl

theorem encodeAll_cons_of_error {t : NameTable} {names : List (Except Error SignedName)}
    {e : Error} (h : (t.encode names).2 = .error e)
    (rest : List (List (Except Error SignedName))) :
    t.encodeAll (names :: rest) = ((t.encode names).1, .error e) := by
  rw [encodeAll]
  cases hencode : t.encode names with
  | mk t₁ result =>
      rw [hencode] at h
      simp only at h
      rw [h]

theorem encodeAll_cons_of_ok {t : NameTable} {names : List (Except Error SignedName)}
    {clause : Clause} (h : (t.encode names).2 = .ok clause)
    (rest : List (List (Except Error SignedName))) :
    t.encodeAll (names :: rest) =
      (((t.encode names).1.encodeAll rest).1,
        ((t.encode names).1.encodeAll rest).2.map (clause :: ·)) := by
  rw [encodeAll]
  cases hencode : t.encode names with
  | mk t₁ result =>
      rw [hencode] at h
      simp only at h
      rw [h]
      simp only
      split <;> next heq => rw [heq]; rfl

theorem encode_cons_eq_ok {t : NameTable} {name : Except Error SignedName}
    {rest : List (Except Error SignedName)} {clause : Clause}
    (h : (t.encode (name :: rest)).2 = .ok clause) :
    ∃ s clause', name = .ok s ∧ ((t.number s.name).1.encode rest).2 = .ok clause' ∧
      clause = Literal.of (t.number s.name).2 s.negated :: clause' := by
  cases name with
  | error e => exact nomatch h
  | ok s =>
      rw [encode_cons_ok] at h
      cases hrest : ((t.number s.name).1.encode rest).2 with
      | error e =>
          rw [hrest] at h
          exact nomatch h
      | ok clause' =>
          rw [hrest] at h
          exact ⟨s, clause', rfl, hrest, (Except.ok.inj h).symm⟩

theorem encodeAll_cons_eq_ok {t : NameTable} {names : List (Except Error SignedName)}
    {rest : List (List (Except Error SignedName))} {cs : List Clause}
    (h : (t.encodeAll (names :: rest)).2 = .ok cs) :
    ∃ clause cs', (t.encode names).2 = .ok clause ∧
      ((t.encode names).1.encodeAll rest).2 = .ok cs' ∧ cs = clause :: cs' := by
  cases hfirst : (t.encode names).2 with
  | error e =>
      rw [encodeAll_cons_of_error hfirst] at h
      exact nomatch h
  | ok clause =>
      rw [encodeAll_cons_of_ok hfirst] at h
      cases hrest : ((t.encode names).1.encodeAll rest).2 with
      | error e =>
          rw [hrest] at h
          exact nomatch h
      | ok cs' =>
          rw [hrest] at h
          exact ⟨clause, cs', rfl, rfl, (Except.ok.inj h).symm⟩

/-- What numbering the names of a clause keeps, encoding the clause keeps. -/
theorem encode_induct {P : NameTable → Prop} {names : List (Except Error SignedName)}
    (hnumber : ∀ t s, .ok s ∈ names → P t → P (t.number s.name).1) {t : NameTable} (ht : P t) :
    P (t.encode names).1 := by
  induction names generalizing t with
  | nil => exact ht
  | cons name rest ih =>
      cases name with
      | error e => exact ht
      | ok s =>
          rw [encode_cons_ok]
          refine ih (fun t s' hs' => hnumber t s' (List.mem_cons_of_mem _ hs')) ?_
          exact hnumber t s List.mem_cons_self ht

theorem encodeAll_induct {P : NameTable → Prop}
    {clauses : List (List (Except Error SignedName))}
    (hnumber : ∀ t s, (∃ names ∈ clauses, .ok s ∈ names) → P t → P (t.number s.name).1)
    {t : NameTable} (ht : P t) : P (t.encodeAll clauses).1 := by
  induction clauses generalizing t with
  | nil => exact ht
  | cons names rest ih =>
      have hfirst : P (t.encode names).1 :=
        encode_induct (fun t s hs => hnumber t s ⟨names, List.mem_cons_self, hs⟩) ht
      cases hencode : (t.encode names).2 with
      | error e =>
          rw [encodeAll_cons_of_error hencode]
          exact hfirst
      | ok clause =>
          rw [encodeAll_cons_of_ok hencode]
          refine ih (fun t s hs => ?_) hfirst
          obtain ⟨names', hnames', hs⟩ := hs
          exact hnumber t s ⟨names', List.mem_cons_of_mem _ hnames', hs⟩

theorem names_prefix_number (t : NameTable) (name : String) :
    t.names <+: (t.number name).1.names := by
  rcases number_cases t name with ⟨i, -, heq⟩ | ⟨-, heq⟩
  · simp [heq]
  · simp [heq]

theorem names_prefix_encode (t : NameTable) (names : List (Except Error SignedName)) :
    t.names <+: (t.encode names).1.names := by
  refine encode_induct (P := fun t' => t.names <+: t'.names) ?_ (List.prefix_refl _)
  intro t' s _ h
  exact h.trans (names_prefix_number t' s.name)

theorem names_prefix_encodeAll (t : NameTable)
    (clauses : List (List (Except Error SignedName))) :
    t.names <+: (t.encodeAll clauses).1.names := by
  refine encodeAll_induct (P := fun t' => t.names <+: t'.names) ?_ (List.prefix_refl _)
  intro t' s _ h
  exact h.trans (names_prefix_number t' s.name)

end CnfSolver.NameTable
