import CnfSolver.Proofs.Watches.Relocation

/-!
# The watch invariant

A watch list is in order under an assignment if it holds exactly the given clauses, each in the slot
of one of its own literals that is not false. Then no clause is false as a whole. A new watch list
is in order, opening variables keeps it in order, and deciding one either moves the clauses to a
watch list that is in order again or meets a clause that has become false.
-/

namespace CnfSolver.WatchList

/-- The watch list has two slots for each of `n` variables and holds exactly the clauses `cs`, each
in the slot of one of its own literals that is not false under `a`. -/
structure Watches (n : Nat) (cs : List Clause) (a : Assignment) (w : WatchList) : Prop where
  length_eq : w.length = 2 * n
  perm : w.flatten.Perm cs
  own : ∀ k (h : k < w.length), ∀ c ∈ w[k], (⟨k⟩ : Literal) ∈ c
  live : ∀ k (h : k < w.length), ∀ c ∈ w[k], Literal.isFalse? ⟨k⟩ a ≠ some true

namespace Watches

variable {n : Nat} {cs : List Clause} {a b : Assignment} {w : WatchList}

theorem mem_clauses (hw : w.Watches n cs a) {k : Nat} {clauses : List Clause} {c : Clause}
    (hk : w[k]? = some clauses) (hc : c ∈ clauses) : c ∈ cs :=
  hw.perm.mem_iff.1 (List.mem_flatten.2 ⟨clauses, List.mem_of_getElem? hk, hc⟩)

theorem inRange (hw : w.Watches n cs a) (hcs : ∀ c ∈ cs, c.WellFormed n) {k : Nat}
    (hk : k < w.length) : ∀ c ∈ w[k], ∀ l ∈ c, l.InRange n := by
  intro c hc
  have hmem := hw.mem_clauses (List.getElem?_eq_getElem hk) hc
  exact (hcs c hmem).inRange

theorem not_allFalse (hw : w.Watches n cs a) : ∀ c ∈ cs, ¬c.AllFalse a := by
  intro c hc hfalse
  obtain ⟨clauses, hclauses, hmem⟩ := List.mem_flatten.1 (hw.perm.mem_iff.2 hc)
  obtain ⟨k, hk, rfl⟩ := List.mem_iff_getElem.1 hclauses
  exact hw.live k hk c hmem (hfalse ⟨k⟩ (hw.own k hk c hmem))

theorem of_extends (hw : w.Watches n cs a) (hab : a.Extends b) : w.Watches n cs b where
  length_eq := hw.length_eq
  perm := hw.perm
  own := hw.own
  live k hk c hc h := hw.live k hk c hc (Literal.isFalse?_of_extends hab h)

/-! ## New watch lists -/

theorem replicate_nil (n : Nat) (a : Assignment) :
    Watches n [] a (List.replicate (2 * n) []) where
  length_eq := List.length_replicate
  perm := by rw [List.flatten_replicate_nil]
  own k hk c hc := by simp at hc
  live k hk c hc := by simp at hc

theorem mem_of_modify_append {k j : Nat} {c c' : Clause}
    (hj : j < (w.modify k (· ++ [c])).length) (hc' : c' ∈ (w.modify k (· ++ [c]))[j]) :
    (∃ hjw : j < w.length, c' ∈ w[j]) ∨ (j = k ∧ c' = c) := by
  rw [List.length_modify] at hj
  rw [List.getElem_modify] at hc'
  by_cases hjk : k = j
  · rw [if_pos hjk, List.mem_append, List.mem_singleton] at hc'
    rcases hc' with hc' | hc'
    · exact .inl ⟨hj, hc'⟩
    · exact .inr ⟨hjk.symm, hc'⟩
  · rw [if_neg hjk] at hc'
    exact .inl ⟨hj, hc'⟩

theorem append? (hw : w.Watches n cs a) {c : Clause} {l : Literal} (hl : l ∈ c)
    (hrange : l.InRange n) (hlive : l.isFalse? a ≠ some true) :
    ∃ w', w.append? l c = some w' ∧ w'.Watches n (cs ++ [c]) a := by
  obtain ⟨k, hk, rfl⟩ := hrange.exists_code
  have hkw : k < w.length := by rw [hw.length_eq]; exact hk
  refine ⟨w.modify k (· ++ [c]),
    append?_eq_some.2 ⟨k, Index.place?_natCast hkw, rfl⟩, ?_, ?_, ?_, ?_⟩
  · rw [List.length_modify, hw.length_eq]
  · exact (flatten_modify_append_perm w c hkw).trans
      ((hw.perm.cons c).trans (List.perm_append_singleton c cs).symm)
  · intro j hj c' hc'
    rcases mem_of_modify_append hj hc' with ⟨hjw, hold⟩ | ⟨rfl, rfl⟩
    · exact hw.own j hjw c' hold
    · exact hl
  · intro j hj c' hc'
    rcases mem_of_modify_append hj hc' with ⟨hjw, hold⟩ | ⟨rfl, rfl⟩
    · exact hw.live j hjw c' hold
    · exact hlive

theorem exists_foldlM_append? {rest : List Clause} (hrest : ∀ c ∈ rest, c.WellFormed n)
    (hw : w.Watches n cs (List.replicate n none)) :
    ∃ w', rest.foldlM (fun w c => c.head?.bind fun l => w.append? l c) w = some w' ∧
      w'.Watches n (cs ++ rest) (List.replicate n none) := by
  induction rest generalizing cs w with
  | nil => exact ⟨w, rfl, by rwa [List.append_nil]⟩
  | cons c rest ih =>
      obtain ⟨hc, hall⟩ := List.forall_mem_cons.1 hrest
      obtain ⟨l, ls, rfl⟩ := List.exists_cons_of_ne_nil hc.ne_nil
      obtain ⟨w₁, happend, hw₁⟩ := hw.append? List.mem_cons_self
        (hc.inRange l List.mem_cons_self) (Literal.isFalse?_replicate_none l n)
      obtain ⟨w', hw', hwatches⟩ := ih hall hw₁
      refine ⟨w', ?_, by rwa [List.append_assoc] at hwatches⟩
      rw [List.foldlM_cons, List.head?_cons, Option.bind_some, happend]
      exact hw'

theorem exists_ofClauses? (hcs : ∀ c ∈ cs, c.WellFormed n) :
    ∃ w, ofClauses? n cs = some w ∧ w.Watches n cs (List.replicate n none) :=
  exists_foldlM_append? hcs (replicate_nil n _)

/-! ## Updates -/

/-- A clause on the variables moves to the slot of one of its literals, and not to that of `f`. -/
theorem of_destination?_eq_some {f : Literal} {c : Clause} {k : Nat}
    (hc : ∀ l ∈ c, l.InRange n) (h : destination? (2 * n) f a c = some k) :
    (⟨k⟩ : Literal) ∈ c ∧ (⟨k⟩ : Literal) ≠ f ∧ Literal.isFalse? ⟨k⟩ a ≠ some true := by
  obtain ⟨l, hl, hplace⟩ := Option.bind_eq_some_iff.1 h
  obtain ⟨hmem, hne, hfalse⟩ := of_replacement?_eq_some (Option.join_eq_some_iff.1 hl)
  obtain ⟨j, hj, rfl⟩ := (hc l hmem).exists_code
  obtain rfl : j = k := by simpa [Index.place?_natCast hj] using hplace
  exact ⟨hmem, hne, by rw [hfalse]; simp⟩

/-- What is in a slot after the clauses of `k` have moved and the slot of `k` is emptied. -/
theorem mem_of_relocates (hw : w.Watches n cs a) (hcs : ∀ c ∈ cs, c.WellFormed n) {k : Nat}
    (hk : k < w.length) {w' : WatchList} (hmoves : Relocates ⟨k⟩ b w[k] w w') {j : Nat}
    (hj : j < (w'.set k []).length) {c : Clause} (hc : c ∈ (w'.set k [])[j]) :
    j ≠ k ∧ ((∃ hjw : j < w.length, c ∈ w[j]) ∨
      (∀ l ∈ c, l.InRange n) ∧ destination? (2 * n) ⟨k⟩ b c = some j) := by
  rw [List.getElem_set] at hc
  by_cases hkj : k = j
  · simp [hkj] at hc
  · rw [if_neg hkj] at hc
    have hjw : j < w.length := by
      rwa [List.length_set, hmoves.length_eq] at hj
    have hget := hmoves.getElem? j
    rw [List.length_set] at hj
    rw [List.getElem?_eq_getElem hj, List.getElem?_eq_getElem hjw, Option.map_some,
      Option.some.injEq] at hget
    rw [hget, List.mem_append, List.mem_filter, decide_eq_true_iff, hw.length_eq] at hc
    refine ⟨Ne.symm hkj, ?_⟩
    rcases hc with hold | ⟨hnew, hdest⟩
    · exact .inl ⟨hjw, hold⟩
    · exact .inr ⟨hw.inRange hcs hk c hnew, hdest⟩

/-- Nothing moves to the slot of `k`, so emptying it takes away just what has moved. -/
theorem getElem?_of_relocates (hw : w.Watches n cs a) (hcs : ∀ c ∈ cs, c.WellFormed n) {k : Nat}
    (hk : k < w.length) {w' : WatchList} (hmoves : Relocates ⟨k⟩ b w[k] w w') :
    w'[k]? = some w[k] := by
  have hnone : (w[k].filter fun c => destination? w.length ⟨k⟩ b c = some k) = [] := by
    rw [List.filter_eq_nil_iff]
    intro c hc hdest
    rw [decide_eq_true_iff, hw.length_eq] at hdest
    have hne := (of_destination?_eq_some (hw.inRange hcs hk c hc) hdest).2.1
    exact hne rfl
  rw [hmoves.getElem? k, List.getElem?_eq_getElem hk, Option.map_some, hnone, List.append_nil]

/-- Emptying the slot of `k` puts a watch list in order again, if all that watched `k` has moved and
no literal but `k` has become false. -/
theorem of_relocates (hw : w.Watches n cs a) (hcs : ∀ c ∈ cs, c.WellFormed n) {k : Nat}
    (hk : k < w.length) {w' : WatchList} (hmoves : Relocates ⟨k⟩ b w[k] w w')
    (hfalse : ∀ l : Literal, l.InRange n → l.isFalse? b = some true →
      l = ⟨k⟩ ∨ l.isFalse? a = some true) : Watches n cs b (w'.set k []) := by
  refine ⟨?_, ?_, ?_, ?_⟩
  · rw [List.length_set, hmoves.length_eq, hw.length_eq]
  · have hsame := hw.getElem?_of_relocates hcs hk hmoves
    have hperm : (w[k] ++ (w'.set k []).flatten).Perm (w[k] ++ w.flatten) :=
      (flatten_set_nil_perm hsame).trans hmoves.flatten_perm
    exact ((List.perm_append_left_iff w[k]).1 hperm).trans hw.perm
  · intro j hj c hc
    obtain ⟨-, ⟨hjw, hold⟩ | ⟨hc, hdest⟩⟩ := hw.mem_of_relocates hcs hk hmoves hj hc
    · exact hw.own j hjw c hold
    · exact (of_destination?_eq_some hc hdest).1
  · intro j hj c hc
    obtain ⟨hjk, ⟨hjw, hold⟩ | ⟨hc, hdest⟩⟩ := hw.mem_of_relocates hcs hk hmoves hj hc
    · intro h
      have hmem := hw.mem_clauses (List.getElem?_eq_getElem hjw) hold
      have hown := hw.own j hjw c hold
      rcases hfalse ⟨j⟩ ((hcs c hmem).inRange _ hown) h with heq | h
      · rw [Literal.mk.injEq] at heq
        omega
      · exact hw.live j hjw c hold h
    · exact (of_destination?_eq_some hc hdest).2.2

/-- Giving a variable a value, be it open or not, either keeps the watch list in order or makes a
clause false. -/
theorem update_cases (hw : w.Watches n cs a) (hcs : ∀ c ∈ cs, c.WellFormed n)
    (ha : a.length = n) {v : Nat} (hv : v < n) (value : Bool) :
    (w.update (Literal.of v value) (a.set v (some value.toInt)) = (.conflict, w) ∧
      ∃ c ∈ cs, c.AllFalse (a.set v (some value.toInt))) ∨
    ∃ w', w.update (Literal.of v value) (a.set v (some value.toInt)) = (.moved, w') ∧
      w'.Watches n cs (a.set v (some value.toInt)) := by
  have hf := Literal.inRange_of hv value
  have hfalse {l : Literal} (hl : l.InRange n) := Literal.isFalse?_set hl ha hv value
  obtain ⟨k, hk, hfk⟩ := hf.exists_code
  rw [hfk] at hf hfalse ⊢
  have hkw : k < w.length := by rw [hw.length_eq]; exact hk
  have hclauses : w[k]? = some w[k] := List.getElem?_eq_getElem hkw
  have hrange := hw.inRange hcs hkw
  rcases WatchList.update_cases (a := a.set v (some value.toInt)) (Index.place?_natCast hkw)
    hclauses with ⟨w', heq, hmoves⟩ | ⟨heq, c, hc, hstuck⟩ | ⟨w', heq, c, hc, hout⟩
  · refine .inr ⟨w'.set k [], heq, hw.of_relocates hcs hkw hmoves ?_⟩
    intro l hl h
    rcases (hfalse hl).1 h with h | ⟨-, h⟩
    · exact .inl h
    · exact .inr h
  · refine .inl ⟨heq, c, hw.mem_clauses hclauses hc, ?_⟩
    intro l hl
    rcases of_replacement?_eq_some_none hstuck l hl with rfl | h
    · exact (hfalse hf).2 (.inl rfl)
    · exact h
  · -- every literal has a slot and every variable an entry
    exfalso
    rcases hout with hnone | ⟨l, hfound, hnone⟩
    · obtain ⟨l, hl, h⟩ := of_replacement?_eq_none hnone
      exact Literal.isFalse?_ne_none (hrange c hc l hl) (by rw [List.length_set, ha]) h
    · obtain ⟨j, hj, rfl⟩ := (hrange c hc l (of_replacement?_eq_some hfound).1).exists_code
      rw [hw.length_eq, Index.place?_natCast hj] at hnone
      simp at hnone

end Watches

end CnfSolver.WatchList
