import CnfSolver.Proofs.Assignment.Truth
import CnfSolver.Watches

/-!
# Relocation

What an update does to a watch list, whatever the list holds. A relocation that goes through only
adds clauses behind those that are there, and one that meets a false clause takes all its moves
back. The effect is given slot by slot, and as a permutation of all clauses.
-/

namespace CnfSolver.WatchList

section Lists

variable {α : Type}

theorem flatten_modify_append_perm (xss : List (List α)) (x : α) {k : Nat} (h : k < xss.length) :
    (xss.modify k (· ++ [x])).flatten.Perm (x :: xss.flatten) := by
  induction xss generalizing k with
  | nil => simp at h
  | cons xs xss ih =>
      cases k with
      | zero =>
          rw [List.modify_zero_cons, List.flatten_cons, List.flatten_cons, List.append_assoc]
          exact List.perm_middle
      | succ k =>
          rw [List.modify_succ_cons, List.flatten_cons, List.flatten_cons]
          exact ((ih (Nat.lt_of_succ_lt_succ h)).append_left xs).trans List.perm_middle

theorem flatten_set_nil_perm {xss : List (List α)} {xs : List α} {k : Nat}
    (h : xss[k]? = some xs) : (xs ++ (xss.set k []).flatten).Perm xss.flatten := by
  induction xss generalizing k with
  | nil => simp at h
  | cons ys xss ih =>
      cases k with
      | zero =>
          obtain rfl : ys = xs := by simpa using h
          simp
      | succ k =>
          have hperm := ih (by simpa using h)
          rw [List.set_cons_succ, List.flatten_cons, List.flatten_cons]
          exact (List.perm_append_comm_assoc xs ys _).trans (hperm.append_left ys)

end Lists

/-! ## Single moves -/

theorem append?_eq_some {w w' : WatchList} {l : Literal} {c : Clause} :
    w.append? l c = some w' ↔
      ∃ k, Index.place? w.length l.code = some k ∧ w.modify k (· ++ [c]) = w' :=
  Option.map_eq_some_iff

theorem append?_eq_none {w : WatchList} {l : Literal} {c : Clause} :
    w.append? l c = none ↔ Index.place? w.length l.code = none :=
  Option.map_eq_none_iff

theorem length_of_append? {w w' : WatchList} {l : Literal} {c : Clause}
    (h : w.append? l c = some w') : w'.length = w.length :=
  Index.length_of_modify? h

theorem dropLast_of_append? {w w' : WatchList} {l : Literal} {c : Clause}
    (h : w.append? l c = some w') : w'.dropLast l = w := by
  obtain ⟨k, hk, rfl⟩ := append?_eq_some.1 h
  have hid : (List.dropLast ∘ fun xs : List Clause => xs ++ [c]) = id := by
    funext xs
    exact List.dropLast_concat
  rw [dropLast, Index.modify?, List.length_modify, hk, Option.map_some, Option.getD_some,
    List.modify_modify_eq, hid, List.modify_id]

theorem clear_of_place? {w : WatchList} {f : Literal} {k : Nat}
    (h : Index.place? w.length f.code = some k) : w.clear f = w.set k [] := by
  rw [clear, Index.set?, h, Option.map_some, Option.getD_some]

/-! ## Finding a literal to watch -/

theorem of_replacement?_eq_some {f l : Literal} {a : Assignment} {c : Clause}
    (h : replacement? f a c = some (some l)) :
    l ∈ c ∧ l ≠ f ∧ l.isFalse? a = some false := by
  fun_induction replacement? f a c with
  | case1 => simp at h
  | case2 ls ih =>
      obtain ⟨hmem, hrest⟩ := ih h
      exact ⟨List.mem_cons_of_mem f hmem, hrest⟩
  | case3 => simp at h
  | case4 l' ls _ _ ih =>
      obtain ⟨hmem, hrest⟩ := ih h
      exact ⟨List.mem_cons_of_mem l' hmem, hrest⟩
  | case5 l' ls hne hfalse =>
      obtain rfl : l' = l := by simpa using h
      exact ⟨List.mem_cons_self, hne, hfalse⟩

theorem of_replacement?_eq_some_none {f : Literal} {a : Assignment} {c : Clause}
    (h : replacement? f a c = some none) : ∀ l ∈ c, l = f ∨ l.isFalse? a = some true := by
  fun_induction replacement? f a c with
  | case1 => simp
  | case2 ls ih => exact List.forall_mem_cons.2 ⟨.inl rfl, ih h⟩
  | case3 => simp at h
  | case4 l ls _ hfalse ih => exact List.forall_mem_cons.2 ⟨.inr hfalse, ih h⟩
  | case5 => simp at h

theorem of_replacement?_eq_none {f : Literal} {a : Assignment} {c : Clause}
    (h : replacement? f a c = none) : ∃ l ∈ c, l.isFalse? a = none := by
  fun_induction replacement? f a c with
  | case1 => simp at h
  | case2 ls ih =>
      obtain ⟨l, hl, hnone⟩ := ih h
      exact ⟨l, List.mem_cons_of_mem f hl, hnone⟩
  | case3 l ls _ hnone => exact ⟨l, List.mem_cons_self, hnone⟩
  | case4 l ls _ _ ih =>
      obtain ⟨l', hl', hnone⟩ := ih h
      exact ⟨l', List.mem_cons_of_mem l hl', hnone⟩
  | case5 => simp at h

/-- The place of the slot, among `slots` of them, that a clause moves to when `f` is false. -/
def destination? (slots : Nat) (f : Literal) (a : Assignment) (c : Clause) : Option Nat :=
  (replacement? f a c).join.bind fun l => Index.place? slots l.code

/-! ## Relocating a list of clauses -/

/-- Moving the clauses one by one, each to the first literal that it can watch, takes one watch
list to the other. -/
inductive Relocates (f : Literal) (a : Assignment) : List Clause → WatchList → WatchList → Prop
  | nil (w : WatchList) : Relocates f a [] w w
  | cons {c : Clause} {cs : List Clause} {l : Literal} {w w₁ w₂ : WatchList}
      (found : replacement? f a c = some (some l)) (moved : w.append? l c = some w₁)
      (rest : Relocates f a cs w₁ w₂) : Relocates f a (c :: cs) w w₂

theorem relocate_cases (f : Literal) (a : Assignment) (cs : List Clause) (moved : List Literal)
    (w : WatchList) :
    (∃ w', relocate f a cs moved w = (.moved, w') ∧ Relocates f a cs w w') ∨
    (relocate f a cs moved w = (.conflict, w.undo moved) ∧
      ∃ c ∈ cs, replacement? f a c = some none) ∨
    (∃ w', relocate f a cs moved w = (.outOfRange, w') ∧
      ∃ c ∈ cs, replacement? f a c = none ∨
        ∃ l, replacement? f a c = some (some l) ∧ Index.place? w.length l.code = none) := by
  fun_induction relocate f a cs moved w with
  | case1 moved w => exact .inl ⟨w, rfl, .nil w⟩
  | case2 c cs moved w hnone =>
      exact .inr (.inr ⟨w, rfl, c, List.mem_cons_self, .inl hnone⟩)
  | case3 c cs moved w hstuck => exact .inr (.inl ⟨rfl, c, List.mem_cons_self, hstuck⟩)
  | case4 c cs moved w l hfound happend =>
      refine .inr (.inr ⟨w, rfl, c, List.mem_cons_self, .inr ⟨l, hfound, ?_⟩⟩)
      exact append?_eq_none.1 happend
  | case5 c cs moved w l hfound w₁ happend ih =>
      rcases ih with ⟨w', heq, hmoves⟩ | ⟨heq, c', hc', hstuck⟩ | ⟨w', heq, c', hc', hout⟩
      · exact .inl ⟨w', heq, .cons hfound happend hmoves⟩
      · -- the move made here is the latest one, so it is the first to be taken back
        have hundo : w₁.undo (l :: moved) = w.undo moved := by
          rw [undo, List.foldl_cons, dropLast_of_append? happend, undo]
        exact .inr (.inl ⟨by rw [heq, hundo], c', List.mem_cons_of_mem c hc', hstuck⟩)
      · rw [length_of_append? happend] at hout
        exact .inr (.inr ⟨w', heq, c', List.mem_cons_of_mem c hc', hout⟩)

variable {f : Literal} {a : Assignment} {cs : List Clause} {w w' : WatchList}

theorem Relocates.length_eq (h : Relocates f a cs w w') : w'.length = w.length := by
  induction h with
  | nil => rfl
  | cons _ moved _ ih => rw [ih, length_of_append? moved]

theorem Relocates.flatten_perm (h : Relocates f a cs w w') :
    w'.flatten.Perm (cs ++ w.flatten) := by
  induction h with
  | nil => exact List.Perm.refl _
  | @cons c cs l w w₁ w₂ _ moved _ ih =>
      obtain ⟨k, hk, rfl⟩ := append?_eq_some.1 moved
      have hadd := flatten_modify_append_perm w c (Index.place?_eq_some.1 hk).1
      calc w₂.flatten.Perm (cs ++ (w.modify k (· ++ [c])).flatten) := ih
        List.Perm _ (cs ++ c :: w.flatten) := hadd.append_left cs
        List.Perm _ (c :: (cs ++ w.flatten)) := List.perm_middle

/-- A slot keeps its clauses and gets, in order, those that move to it. -/
theorem Relocates.getElem? (h : Relocates f a cs w w') (k : Nat) :
    w'[k]? = w[k]?.map (· ++ cs.filter fun c => destination? w.length f a c = some k) := by
  induction h with
  | nil => simp
  | @cons c cs l w w₁ w₂ found moved _ ih =>
      obtain ⟨j, hj, rfl⟩ := append?_eq_some.1 moved
      have hdest : destination? w.length f a c = some j := by
        simp [destination?, found, hj]
      rw [ih, List.length_modify, List.getElem?_modify, List.filter_cons, hdest]
      by_cases hjk : j = k
      · simp [hjk, Function.comp_def]
      · simp [hjk]

/-! ## Updating -/

/-- The three ways in which an update ends. A conflict leaves the watch list as it was. -/
theorem update_cases {k : Nat} {clauses : List Clause}
    (hk : Index.place? w.length f.code = some k) (hclauses : w[k]? = some clauses) :
    (∃ w', w.update f a = (.moved, w'.set k []) ∧ Relocates f a clauses w w') ∨
    (w.update f a = (.conflict, w) ∧ ∃ c ∈ clauses, replacement? f a c = some none) ∨
    (∃ w', w.update f a = (.outOfRange, w') ∧
      ∃ c ∈ clauses, replacement? f a c = none ∨
        ∃ l, replacement? f a c = some (some l) ∧ Index.place? w.length l.code = none) := by
  have hslot : w.slot? f = some clauses := by
    rw [slot?, Index.get?, hk, Option.bind_some, hclauses]
  rcases relocate_cases f a clauses [] w with ⟨w', heq, hmoves⟩ | ⟨heq, hstuck⟩ | ⟨w', heq, hout⟩
  · refine .inl ⟨w', ?_, hmoves⟩
    rw [update, hslot]
    simp only [heq, clear_of_place? (hmoves.length_eq ▸ hk)]
  · refine .inr (.inl ⟨?_, hstuck⟩)
    rw [update, hslot]
    simp only [heq, undo, List.foldl_nil]
  · refine .inr (.inr ⟨w', ?_, hout⟩)
    rw [update, hslot]
    simp only [heq]

end CnfSolver.WatchList
