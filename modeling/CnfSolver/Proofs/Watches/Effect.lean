import CnfSolver.Proofs.Watches.Relocation

/-!
# The effect of an update

How an update ends, on whatever watch list, is read off the clauses that watch the false literal:
the first of them that cannot move decides. If all of them can, each goes behind the clauses that
watch its first live literal already, and if one has no live literal the watch list stays as it was.
-/

namespace CnfSolver.WatchList

def firstLive? (f : Literal) (a : Assignment) (c : Clause) : Option Literal :=
  c.find? fun l => l ≠ f ∧ l.isFalse? a ≠ some true

def canMove (w : WatchList) (f : Literal) (a : Assignment) (c : Clause) : Bool :=
  (firstLive? f a c).any fun l => l.isFalse? a = some false ∧ (w.slot? l).isSome

/-- How an update ends that finds `clauses` in the slot of `f`. -/
def outcome (w : WatchList) (f : Literal) (a : Assignment) (clauses : List Clause) : Verdict :=
  match clauses.find? fun c => !w.canMove f a c with
  | none => .moved
  | some c => if firstLive? f a c = none then .conflict else .outOfRange

/-- Every literal of every clause has a slot, counted from the front. -/
def InSlots (w : WatchList) : Prop :=
  ∀ clauses ∈ w, ∀ c ∈ clauses, ∀ l ∈ c, 0 ≤ l.code ∧ l.code < w.length

instance (w : WatchList) : Decidable w.InSlots :=
  inferInstanceAs (Decidable (∀ clauses ∈ w, ∀ c ∈ clauses, ∀ l ∈ c, _ ∧ _))

variable {w w' : WatchList} {f l : Literal} {a : Assignment} {c : Clause}

/-! ## Live literals -/

theorem firstLive?_cons_self (f : Literal) (a : Assignment) (c : Clause) :
    firstLive? f a (f :: c) = firstLive? f a c :=
  List.find?_cons_of_neg (by simp)

theorem firstLive?_cons_of_isFalse (h : l.isFalse? a = some true) (c : Clause) :
    firstLive? f a (l :: c) = firstLive? f a c :=
  List.find?_cons_of_neg (by simp [h])

theorem firstLive?_cons_of_live (hne : l ≠ f) (h : l.isFalse? a ≠ some true) (c : Clause) :
    firstLive? f a (l :: c) = some l :=
  List.find?_cons_of_pos (by simp [hne, h])

/-- The search for a literal to watch stops at the first live one, and fails there if its variable
has no entry. -/
theorem replacement?_eq (f : Literal) (a : Assignment) (c : Clause) :
    replacement? f a c =
      match firstLive? f a c with
      | none => some none
      | some l => (l.isFalse? a).map fun _ => some l := by
  fun_induction replacement? f a c with
  | case1 => rfl
  | case2 c ih => rw [firstLive?_cons_self, ih]
  | case3 l c hne hnone =>
      rw [firstLive?_cons_of_live hne (by simp [hnone])]
      simp only [hnone, Option.map_none]
  | case4 l c _ hfalse ih => rw [firstLive?_cons_of_isFalse hfalse, ih]
  | case5 l c hne hlive =>
      rw [firstLive?_cons_of_live hne (by simp [hlive])]
      simp only [hlive, Option.map_some]

theorem firstLive?_of_replacement?_eq_none (h : replacement? f a c = none) :
    ∃ l, firstLive? f a c = some l ∧ l.isFalse? a = none := by
  rw [replacement?_eq] at h
  cases hlive : firstLive? f a c with
  | none => simp [hlive] at h
  | some l => exact ⟨l, rfl, by simpa [hlive] using h⟩

theorem firstLive?_of_replacement?_eq_some_none (h : replacement? f a c = some none) :
    firstLive? f a c = none := by
  rw [replacement?_eq] at h
  cases hlive : firstLive? f a c with
  | none => rfl
  | some l => simp [hlive] at h

theorem firstLive?_of_replacement?_eq_some (h : replacement? f a c = some (some l)) :
    firstLive? f a c = some l := by
  rw [replacement?_eq] at h
  cases hlive : firstLive? f a c with
  | none => simp [hlive] at h
  | some l' =>
      simp only [hlive, Option.map_eq_some_iff] at h
      obtain ⟨-, -, heq⟩ := h
      exact heq

theorem firstLive?_eq_none_iff :
    firstLive? f a c = none ↔ ∀ l ∈ c, l = f ∨ l.isFalse? a = some true := by
  rw [firstLive?, List.find?_eq_none]
  refine forall₂_congr fun l _ => ?_
  rw [decide_eq_true_iff, not_and_or, not_not, not_not]

theorem of_firstLive?_eq_some (h : firstLive? f a c = some l) :
    l ∈ c ∧ l ≠ f ∧ l.isFalse? a ≠ some true := by
  have hlive := List.find?_some h
  rw [decide_eq_true_iff] at hlive
  exact ⟨List.mem_of_find?_eq_some h, hlive⟩

theorem canMove_of_firstLive? (h : firstLive? f a c = some l) :
    w.canMove f a c = true ↔ l.isFalse? a = some false ∧ (w.slot? l).isSome := by
  rw [canMove, h, Option.any_some, decide_eq_true_iff]

theorem isSome_slot?_iff : (w.slot? l).isSome ↔ Index.place? w.length l.code ≠ none := by
  unfold slot? Index.get?
  cases hplace : Index.place? w.length l.code with
  | none => simp
  | some k => simp [(Index.place?_eq_some.1 hplace).1]

theorem canMove_congr (h : w'.length = w.length) : w'.canMove = w.canMove := by
  funext f a c
  have hslot : ∀ l, (w'.slot? l).isSome = (w.slot? l).isSome := fun l => by
    rw [Bool.eq_iff_iff, isSome_slot?_iff, isSome_slot?_iff, h]
  simp only [canMove, hslot]

/-! ## How a relocation ends -/

theorem outcome_cons_of_canMove (h : w.canMove f a c = true) (cs : List Clause) :
    w.outcome f a (c :: cs) = w.outcome f a cs := by
  rw [outcome, List.find?_cons_of_neg (by simp [h]), outcome]

theorem outcome_cons_of_not_canMove (h : w.canMove f a c = false) (cs : List Clause) :
    w.outcome f a (c :: cs) = if firstLive? f a c = none then .conflict else .outOfRange := by
  rw [outcome, List.find?_cons_of_pos (by simp [h])]

/-- The first clause that cannot move ends a relocation, whatever has moved before. -/
theorem relocate_fst (f : Literal) (a : Assignment) (cs : List Clause) (moved : List Literal)
    (w : WatchList) : (relocate f a cs moved w).1 = w.outcome f a cs := by
  fun_induction relocate f a cs moved w with
  | case1 => rfl
  | case2 c cs moved w hnone =>
      obtain ⟨l, hlive, hentry⟩ := firstLive?_of_replacement?_eq_none hnone
      have hstays : w.canMove f a c = false := by simp [canMove, hlive, hentry]
      rw [outcome_cons_of_not_canMove hstays, hlive, if_neg (Option.some_ne_none l)]
  | case3 c cs moved w hstuck =>
      have hlive := firstLive?_of_replacement?_eq_some_none hstuck
      have hstays : w.canMove f a c = false := by simp [canMove, hlive]
      rw [outcome_cons_of_not_canMove hstays, if_pos hlive]
  | case4 c cs moved w l hfound happend =>
      have hlive := firstLive?_of_replacement?_eq_some hfound
      have hslot : ¬(w.slot? l).isSome := by
        rw [isSome_slot?_iff, not_not]
        exact append?_eq_none.1 happend
      have hstays : w.canMove f a c = false := by simp [canMove, hlive, hslot]
      rw [outcome_cons_of_not_canMove hstays, hlive, if_neg (Option.some_ne_none l)]
  | case5 c cs moved w l hfound w₁ happend ih =>
      have hlive := firstLive?_of_replacement?_eq_some hfound
      have hslot : (w.slot? l).isSome := by
        rw [isSome_slot?_iff, Ne, ← append?_eq_none (c := c), happend]
        exact Option.some_ne_none w₁
      have hmoves : w.canMove f a c = true :=
        (canMove_of_firstLive? hlive).2 ⟨(of_replacement?_eq_some hfound).2.2, hslot⟩
      rw [ih, outcome_cons_of_canMove hmoves, outcome, outcome,
        canMove_congr (length_of_append? happend)]

theorem outcome_eq_moved_iff {clauses : List Clause} :
    w.outcome f a clauses = .moved ↔ ∀ c ∈ clauses, w.canMove f a c = true := by
  unfold outcome
  split
  · next hnone => simpa using hnone
  · next c hfirst =>
    have hmem := List.mem_of_find?_eq_some hfirst
    have hstays : w.canMove f a c = false := by simpa using List.find?_some hfirst
    have hnot : ¬∀ c ∈ clauses, w.canMove f a c = true := fun hall => by
      simp [hall c hmem] at hstays
    split <;> simpa using hnot

theorem outcome_eq_conflict_iff {clauses : List Clause} :
    w.outcome f a clauses = .conflict ↔
      ∃ c, (clauses.find? fun c => !w.canMove f a c) = some c ∧ firstLive? f a c = none := by
  unfold outcome
  split
  · next hnone => simp [hnone]
  · next c hfirst => by_cases hlive : firstLive? f a c = none <;> simp [hfirst, hlive]

/-! ## Conflicts -/

theorem update_fst {clauses : List Clause} (h : w.slot? f = some clauses) :
    (w.update f a).1 = w.outcome f a clauses := by
  rw [← relocate_fst f a clauses [] w, update, h]
  simp only
  split
  · next heq => rw [heq]
  · rfl

/-- Whatever moved before the conflict moves back, the latest first. -/
theorem update_snd_of_conflict (h : (w.update f a).1 = .conflict) : (w.update f a).2 = w := by
  cases hslot : w.slot? f with
  | none => rw [update, hslot]
  | some clauses =>
      obtain ⟨k, hk, hclauses⟩ := Index.get?_eq_some.1 hslot
      rcases update_cases (a := a) hk hclauses with ⟨w', heq, -⟩ | ⟨heq, -⟩ | ⟨w', heq, -⟩
      · simp [heq] at h
      · rw [heq]
      · simp [heq] at h

/-- An update meets a conflict if, among the clauses that watch `f`, the first that cannot move has
no literal that is true or open. It then leaves every slot as it was. The clauses and `f` may be
any, with literals that have no slot or share one with another literal. -/
theorem update_eq_conflict_iff (w w' : WatchList) (f : Literal) (a : Assignment) :
    w.update f a = (.conflict, w') ↔
      w' = w ∧ ∃ clauses c, w.slot? f = some clauses ∧
        (clauses.find? fun c => !w.canMove f a c) = some c ∧
        ∀ l ∈ c, l = f ∨ l.isFalse? a = some true := by
  have hverdict : (w.update f a).1 = .conflict ↔
      ∃ clauses c, w.slot? f = some clauses ∧
        (clauses.find? fun c => !w.canMove f a c) = some c ∧
        ∀ l ∈ c, l = f ∨ l.isFalse? a = some true := by
    cases hslot : w.slot? f with
    | none => simp [update, hslot]
    | some clauses =>
        rw [update_fst hslot, outcome_eq_conflict_iff]
        simp only [firstLive?_eq_none_iff, Option.some.injEq, exists_and_left, exists_eq_left']
  rw [← hverdict]
  constructor
  · intro h
    have hfirst : (w.update f a).1 = .conflict := by rw [h]
    exact ⟨by rw [← update_snd_of_conflict hfirst, h], hfirst⟩
  · rintro ⟨rfl, hfirst⟩
    exact Prod.ext hfirst (update_snd_of_conflict hfirst)

/-- The first clause moves to the slot that is being emptied, counted from the end, and goes back
since the second one has no other literal. -/
example :
    let w : WatchList := [[[⟨0⟩, ⟨-2⟩], [⟨0⟩]], []]
    w.update ⟨0⟩ [none] = (.conflict, w) := by decide

/-! ## Moves -/

theorem isFalse?_of_firstLive? (hc : ∀ l ∈ c, l.InRange a.length)
    (h : firstLive? f a c = some l) : l.isFalse? a = some false := by
  obtain ⟨hl, -, hlive⟩ := of_firstLive?_eq_some h
  have hentry := Literal.isFalse?_ne_none (hc l hl) rfl
  cases hfalse : l.isFalse? a with
  | none => exact absurd hfalse hentry
  | some b =>
      cases b with
      | false => rfl
      | true => exact absurd hfalse hlive

theorem isSome_firstLive?_iff (hc : ∀ l ∈ c, l.InRange a.length) :
    (firstLive? f a c).isSome ↔ ∃ l ∈ c, l ≠ f ∧ l.isFalse? a = some false := by
  constructor
  · intro h
    obtain ⟨l, hlive⟩ := Option.isSome_iff_exists.1 h
    obtain ⟨hl, hne, -⟩ := of_firstLive?_eq_some hlive
    exact ⟨l, hl, hne, isFalse?_of_firstLive? hc hlive⟩
  · rintro ⟨l, hl, hne, hfalse⟩
    rw [Option.isSome_iff_ne_none, Ne, firstLive?_eq_none_iff]
    intro hall
    rcases hall l hl with heq | htrue
    · exact hne heq
    · simp [hfalse] at htrue

namespace InSlots

variable {k g : Nat}

theorem inRange (hw : w.InSlots) (ha : w.length ≤ 2 * a.length) (hk : k < w.length)
    (hc : c ∈ w[k]) : ∀ l ∈ c, l.InRange a.length := by
  intro l hl
  obtain ⟨hnonneg, hlt⟩ := hw w[k] (List.getElem_mem hk) c hc l hl
  exact ⟨hnonneg, by omega⟩

theorem canMove_eq (hw : w.InSlots) (ha : w.length ≤ 2 * a.length) (hk : k < w.length)
    (hc : c ∈ w[k]) : w.canMove f a c = (firstLive? f a c).isSome := by
  cases hlive : firstLive? f a c with
  | none => simp [canMove, hlive]
  | some l =>
      obtain ⟨hl, -⟩ := of_firstLive?_eq_some hlive
      obtain ⟨hnonneg, hlt⟩ := hw w[k] (List.getElem_mem hk) c hc l hl
      refine (canMove_of_firstLive? hlive).2 ⟨?_, ?_⟩
      · exact isFalse?_of_firstLive? (hw.inRange ha hk hc) hlive
      · rw [isSome_slot?_iff, Ne, Index.place?_eq_none]
        omega

theorem outcome_ne_outOfRange (hw : w.InSlots) (ha : w.length ≤ 2 * a.length)
    (hk : k < w.length) : w.outcome f a w[k] ≠ .outOfRange := by
  unfold outcome
  split
  · simp
  · next c hfirst =>
    have hstays : w.canMove f a c = false := by simpa using List.find?_some hfirst
    rw [hw.canMove_eq ha hk (List.mem_of_find?_eq_some hfirst), Option.isSome_eq_false_iff,
      Option.isNone_iff_eq_none] at hstays
    simp [hstays]

theorem outcome_eq_moved_iff (hw : w.InSlots) (ha : w.length ≤ 2 * a.length)
    (hk : k < w.length) :
    w.outcome f a w[k] = .moved ↔ ∀ c ∈ w[k], ∃ l ∈ c, l ≠ f ∧ l.isFalse? a = some false := by
  rw [WatchList.outcome_eq_moved_iff]
  refine forall₂_congr fun c hc => ?_
  rw [hw.canMove_eq ha hk hc, isSome_firstLive?_iff (hw.inRange ha hk hc)]

theorem destination?_eq_some_iff (hw : w.InSlots) (ha : w.length ≤ 2 * a.length)
    (hk : k < w.length) (hc : c ∈ w[k]) :
    destination? w.length f a c = some g ↔ firstLive? f a c = some ⟨g⟩ := by
  rw [destination?, replacement?_eq]
  cases hlive : firstLive? f a c with
  | none => simp
  | some l =>
      obtain ⟨hl, -⟩ := of_firstLive?_eq_some hlive
      obtain ⟨hnonneg, hlt⟩ := hw w[k] (List.getElem_mem hk) c hc l hl
      have hfalse := isFalse?_of_firstLive? (hw.inRange ha hk hc) hlive
      simp only [hfalse, Option.map_some, Option.join_some, Option.bind_some, Option.some.injEq,
        Index.place?_eq_some, Literal.ext_iff]
      omega

/-- A slot keeps its clauses and gets, in order, those whose first live literal it belongs to. -/
theorem getElem?_of_relocates (hw : w.InSlots) (ha : w.length ≤ 2 * a.length)
    (hk : k < w.length) (hmoves : Relocates f a w[k] w w') (g : Nat) :
    w'[g]? = w[g]?.map (· ++ w[k].filter fun c => firstLive? f a c = some ⟨g⟩) := by
  have hsame : w[k].filter (fun c => destination? w.length f a c = some g) =
      w[k].filter fun c => firstLive? f a c = some ⟨g⟩ :=
    List.filter_congr fun c hc => decide_eq_decide.2 (hw.destination?_eq_some_iff ha hk hc)
  rw [hmoves.getElem?, hsame]

end InSlots

/-- If every literal has a slot and every variable an entry, an update goes through unless some
clause has no literal but the false one that is not false. Each clause that watched it then goes to
its first such literal, behind those that watch that one already. -/
theorem update_of_inSlots {w : WatchList} {a : Assignment} {k : Nat} (hw : w.InSlots)
    (ha : w.length ≤ 2 * a.length) (hk : k < w.length) :
    (w.update ⟨k⟩ a).1 ≠ .outOfRange ∧
    ((w.update ⟨k⟩ a).1 = .moved ↔
      ∀ c ∈ w[k], ∃ l ∈ c, l ≠ ⟨k⟩ ∧ l.isFalse? a = some false) ∧
    ((w.update ⟨k⟩ a).1 = .moved →
      (w.update ⟨k⟩ a).2[k]? = some [] ∧
      ∀ g, g ≠ k → (w.update ⟨k⟩ a).2[g]? =
        w[g]?.map (· ++ w[k].filter fun c => firstLive? ⟨k⟩ a c = some ⟨g⟩)) := by
  have hplace : Index.place? w.length (⟨k⟩ : Literal).code = some k := Index.place?_natCast hk
  have hclauses : w[k]? = some w[k] := List.getElem?_eq_getElem hk
  have hverdict := update_fst (a := a) (Index.get?_eq_some.2 ⟨k, hplace, hclauses⟩)
  refine ⟨?_, ?_, fun hmoved => ?_⟩
  · rw [hverdict]
    exact hw.outcome_ne_outOfRange ha hk
  · rw [hverdict]
    exact hw.outcome_eq_moved_iff ha hk
  · rcases update_cases (a := a) hplace hclauses with ⟨w', heq, hmoves⟩ | ⟨heq, -⟩ | ⟨w', heq, -⟩
    · have hk' : k < w'.length := by rwa [hmoves.length_eq]
      rw [heq]
      refine ⟨List.getElem?_set_self hk', fun g hg => ?_⟩
      rw [List.getElem?_set_ne (Ne.symm hg), hw.getElem?_of_relocates ha hk hmoves]
    · rw [heq] at hmoved
      exact nomatch hmoved
    · rw [heq] at hmoved
      exact nomatch hmoved

/-- Clauses repeat the false literal and occur twice, the number of slots is odd, and a variable has
a value that is neither zero nor one. -/
theorem update_of_inSlots_repeated :
    let w : WatchList := [[[⟨0⟩, ⟨0⟩, ⟨3⟩], [⟨0⟩, ⟨1⟩, ⟨4⟩], [⟨0⟩, ⟨0⟩, ⟨3⟩]], [[⟨1⟩]], [],
      [[⟨3⟩, ⟨0⟩]], []]
    let a : Assignment := [some 0, some 7, none]
    w.InSlots ∧ w.length ≤ 2 * a.length ∧
      (w.update ⟨0⟩ a).1 = .moved ∧
      (w.update ⟨0⟩ a).2[1]? = some [[⟨1⟩], [⟨0⟩, ⟨1⟩, ⟨4⟩]] ∧
      (w.update ⟨0⟩ a).2[3]? = some [[⟨3⟩, ⟨0⟩], [⟨0⟩, ⟨0⟩, ⟨3⟩], [⟨0⟩, ⟨0⟩, ⟨3⟩]] := by
  intro w a
  have hw : w.InSlots := by decide
  have ha : w.length ≤ 2 * a.length := by decide
  obtain ⟨-, hiff, heffect⟩ := update_of_inSlots hw ha (show 0 < w.length by decide)
  have hmoved : (w.update ⟨0⟩ a).1 = .moved := hiff.2 (by decide)
  obtain ⟨-, hslots⟩ := heffect hmoved
  refine ⟨hw, ha, hmoved, ?_, ?_⟩
  · exact (hslots 1 (by decide)).trans (by decide)
  · exact (hslots 3 (by decide)).trans (by decide)

end CnfSolver.WatchList
