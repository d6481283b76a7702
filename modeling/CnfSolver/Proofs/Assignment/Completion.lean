import CnfSolver.Proofs.Assignment.Truth

/-!
# Completions

The ways to fill in the open variables of an assignment, zero before one. They come in strictly
increasing lexicographic order. Deciding the first open variable splits them into those of its two
values, which is what a search that decides the variables in order relies on.
-/

namespace CnfSolver.Assignment

/-- The lexicographic order: the first variable on which two assignments differ decides. -/
def Before (a b : Assignment) : Prop := List.Lex (· < ·) a b

def ofValues (n : Nat) (values : List Bool) : Assignment :=
  values.map (fun value => some value.toInt) ++ List.replicate (n - values.length) none

/-- The first `s` of `n` variables have one of the values 0 and 1 and the others are open. -/
structure IsDecidedTo (n s : Nat) (a : Assignment) : Prop where
  length_eq : a.length = n
  isTotal_take : IsTotal (a.take s)
  eq_none_of_mem_drop : ∀ x ∈ a.drop s, x = none

def completions : Assignment → List Assignment
  | [] => [[]]
  | none :: a => (completions a).map (some 0 :: ·) ++ (completions a).map (some 1 :: ·)
  | some v :: a => (completions a).map (some v :: ·)

theorem Before.irrefl (a : Assignment) : ¬a.Before a := by
  apply List.lex_irrefl
  intro x
  cases x with
  | none => exact id
  | some v => exact Int.lt_irrefl v

theorem Before.asymm {a b : Assignment} (h : a.Before b) : ¬b.Before a := by
  refine List.lex_asymm ?_ h
  intro x y hlt
  cases x with
  | none => exact Option.not_lt_none
  | some v =>
      cases y with
      | none => exact absurd hlt Option.not_lt_none
      | some w => exact Int.lt_asymm hlt

/-! ## Assignments that start with given values -/

theorem length_ofValues {n : Nat} {values : List Bool} (h : values.length ≤ n) :
    (ofValues n values).length = n := by
  simp only [ofValues, List.length_append, List.length_map, List.length_replicate]
  omega

@[simp] theorem ofValues_nil (n : Nat) : ofValues n [] = List.replicate n none := rfl

theorem ofValues_of_length_lt {n : Nat} {values : List Bool} (h : values.length < n) :
    ofValues n values =
      values.map (fun value => some value.toInt) ++
        none :: List.replicate (n - (values.length + 1)) none := by
  have hn : n - values.length = n - (values.length + 1) + 1 := by omega
  rw [ofValues, hn, List.replicate_succ]

theorem ofValues_concat (n : Nat) (values : List Bool) (value : Bool) :
    ofValues n (values ++ [value]) =
      values.map (fun value => some value.toInt) ++
        some value.toInt :: List.replicate (n - (values.length + 1)) none := by
  simp [ofValues]

theorem set_ofValues {n : Nat} {values : List Bool} (h : values.length < n) (value : Bool) :
    (ofValues n values).set values.length (some value.toInt) =
      ofValues n (values ++ [value]) := by
  rw [ofValues_of_length_lt h, ofValues_concat, List.set_append_right _ _ (by simp)]
  simp

theorem set_ofValues_concat {n : Nat} {values : List Bool} (h : values.length < n)
    (value : Bool) :
    (ofValues n (values ++ [value])).set values.length none = ofValues n values := by
  rw [ofValues_of_length_lt h, ofValues_concat, List.set_append_right _ _ (by simp)]
  simp

theorem getElem?_ofValues_length {n : Nat} {values : List Bool} (h : values.length < n) :
    (ofValues n values)[values.length]? = some none := by
  rw [ofValues_of_length_lt h, List.getElem?_append_right (by simp)]
  simp

theorem isTotal_ofValues {n : Nat} {values : List Bool} (h : values.length = n) :
    (ofValues n values).IsTotal := by
  intro x hx
  rw [ofValues, h, Nat.sub_self, List.replicate_zero, List.append_nil, List.mem_map] at hx
  obtain ⟨value, -, rfl⟩ := hx
  cases value with
  | false => exact .inl rfl
  | true => exact .inr rfl

theorem extends_ofValues_concat {n : Nat} {values : List Bool} (h : values.length < n)
    (value : Bool) : (ofValues n (values ++ [value])).Extends (ofValues n values) := by
  rw [ofValues_of_length_lt h, ofValues_concat]
  exact List.rel_append (List.forall₂_same.2 fun _ _ => .inr rfl)
    (.cons (.inl rfl) (List.forall₂_same.2 fun _ _ => .inr rfl))

theorem exists_ofValues_of_isTotal {m : Assignment} (hm : m.IsTotal) :
    ∃ values : List Bool, m = values.map fun value => some value.toInt := by
  induction m with
  | nil => exact ⟨[], rfl⟩
  | cons x m ih =>
      obtain ⟨values, rfl⟩ := ih fun y hy => hm y (List.mem_cons_of_mem x hy)
      rcases hm x List.mem_cons_self with rfl | rfl
      · exact ⟨false :: values, rfl⟩
      · exact ⟨true :: values, rfl⟩

theorem IsDecidedTo.exists_ofValues {n s : Nat} {a : Assignment} (h : a.IsDecidedTo n s)
    (hs : s ≤ n) : ∃ values : List Bool, values.length = s ∧ a = ofValues n values := by
  obtain ⟨values, hvalues⟩ := exists_ofValues_of_isTotal h.isTotal_take
  have hlength : values.length = s := by
    have htake := congrArg List.length hvalues
    rw [List.length_take, List.length_map, h.length_eq] at htake
    omega
  have hdrop : a.drop s = List.replicate (n - s) none :=
    List.eq_replicate_iff.2 ⟨by rw [List.length_drop, h.length_eq], h.eq_none_of_mem_drop⟩
  refine ⟨values, hlength, ?_⟩
  rw [← List.take_append_drop s a, hvalues, hdrop, ofValues, hlength]

theorem isDecidedTo_zero (n : Nat) : IsDecidedTo n 0 (List.replicate n none) where
  length_eq := List.length_replicate
  isTotal_take := fun x hx => by simp at hx
  eq_none_of_mem_drop x hx := by
    rw [List.drop_zero] at hx
    exact List.eq_of_mem_replicate hx

/-! ## The completions of an assignment -/

private theorem mem_map_cons_iff {x y : Option Int} {m : Assignment} {ms : List Assignment} :
    y :: m ∈ ms.map (x :: ·) ↔ x = y ∧ m ∈ ms := by
  rw [List.mem_map]
  constructor
  · rintro ⟨m', hm', heq⟩
    obtain ⟨rfl, rfl⟩ := List.cons.inj heq
    exact ⟨rfl, hm'⟩
  · rintro ⟨rfl, hm⟩
    exact ⟨m, hm, rfl⟩

/-- The completions of an assignment are the assignments to all variables that extend it. -/
theorem mem_completions {m a : Assignment} (ha : a.IsThreeValued) :
    m ∈ completions a ↔ m.Extends a ∧ m.IsTotal := by
  induction a generalizing m with
  | nil =>
      rw [completions, List.mem_singleton]
      constructor
      · rintro rfl
        exact ⟨.nil, fun x hx => absurd hx List.not_mem_nil⟩
      · rintro ⟨hm, -⟩
        exact List.forall₂_nil_left_iff.1 hm
  | cons x a ih =>
      have hrest := fun m => @ih m fun y hy => ha y (List.mem_cons_of_mem x hy)
      cases m with
      | nil =>
          have hnot : ¬Extends [] (x :: a) := fun h => nomatch h
          cases x <;> simp [completions, hnot]
      | cons y m =>
          have hextends : Extends (y :: m) (x :: a) ↔ (x = none ∨ x = y) ∧ Extends m a :=
            List.forall₂_cons
          have htotal : IsTotal (y :: m) ↔ (y = some 0 ∨ y = some 1) ∧ IsTotal m :=
            List.forall_mem_cons
          rw [hextends, htotal]
          cases x with
          | none =>
              rw [completions, List.mem_append, mem_map_cons_iff, mem_map_cons_iff, hrest,
                eq_comm (b := y), eq_comm (b := y), ← or_and_right]
              constructor
              · rintro ⟨hy, hm, ht⟩
                exact ⟨⟨.inl rfl, hm⟩, hy, ht⟩
              · rintro ⟨⟨-, hm⟩, hy, ht⟩
                exact ⟨hy, hm, ht⟩
          | some v =>
              have hv := ha (some v) List.mem_cons_self
              rw [completions, mem_map_cons_iff, hrest]
              constructor
              · rintro ⟨rfl, hm, ht⟩
                exact ⟨⟨.inr rfl, hm⟩, by simpa using hv, ht⟩
              · rintro ⟨⟨heq, hm⟩, -, ht⟩
                exact ⟨by simpa using heq, hm, ht⟩

theorem pairwise_completions (a : Assignment) : (completions a).Pairwise Before := by
  induction a with
  | nil => exact List.pairwise_singleton _ _
  | cons x a ih =>
      have hcons (y : Option Int) : ((completions a).map (y :: ·)).Pairwise Before :=
        List.pairwise_map.2 (ih.imp .cons)
      cases x with
      | some v => exact hcons (some v)
      | none =>
          refine List.pairwise_append.2 ⟨hcons (some 0), hcons (some 1), ?_⟩
          intro m hm m' hm'
          obtain ⟨_, -, rfl⟩ := List.mem_map.1 hm
          obtain ⟨_, -, rfl⟩ := List.mem_map.1 hm'
          exact .rel (by decide : (0 : Int) < 1)

theorem nodup_of_pairwise_before {ms : List Assignment} (h : ms.Pairwise Before) : ms.Nodup := by
  refine List.Pairwise.imp ?_ h
  rintro a _ hlt rfl
  exact Before.irrefl a hlt

private theorem completions_append_none (values : List Bool) (a : Assignment) :
    completions (values.map (fun value => some value.toInt) ++ none :: a) =
      completions (values.map (fun value => some value.toInt) ++ some 0 :: a) ++
        completions (values.map (fun value => some value.toInt) ++ some 1 :: a) := by
  induction values with
  | nil => rfl
  | cons value values ih =>
      simp only [List.map_cons, List.cons_append, completions, ih, List.map_append]

/-- Deciding the first open variable splits the completions into those of its two values. -/
theorem completions_ofValues {n : Nat} {values : List Bool} (h : values.length < n) :
    completions (ofValues n values) =
      completions (ofValues n (values ++ [false])) ++
        completions (ofValues n (values ++ [true])) := by
  rw [ofValues_of_length_lt h, ofValues_concat, ofValues_concat]
  exact completions_append_none values _

theorem completions_ofValues_of_length_eq {n : Nat} {values : List Bool}
    (h : values.length = n) : completions (ofValues n values) = [ofValues n values] := by
  have hall : ∀ values : List Bool,
      completions (values.map fun value => some value.toInt) =
        [values.map fun value => some value.toInt] := by
    intro values
    induction values with
    | nil => rfl
    | cons value values ih => simp only [List.map_cons, completions, ih, List.map_nil]
  rw [ofValues, h, Nat.sub_self, List.replicate_zero, List.append_nil]
  exact hall values

theorem mem_completions_ofValues {n : Nat} {values : List Bool} {m : Assignment} :
    m ∈ completions (ofValues n values) ↔ m.Extends (ofValues n values) ∧ m.IsTotal := by
  apply mem_completions
  intro x hx
  rcases List.mem_append.1 hx with hx | hx
  · obtain ⟨value, -, rfl⟩ := List.mem_map.1 hx
    cases value with
    | false => exact .inr (.inl rfl)
    | true => exact .inr (.inr rfl)
  · exact .inl (List.eq_of_mem_replicate hx)

end CnfSolver.Assignment
