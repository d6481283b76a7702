import CnfSolver.Proofs.Workspace.Step

/-!
# Histories of a workspace

Whatever is done on some tables and in whatever order, failures included, every table stays
consistent and only grows. So a clause keeps its meaning in the table for which it was encoded, and
in all copies that are made of it later.
-/

namespace CnfSolver.Workspace

def fresh (n : Nat) : Workspace := ⟨List.replicate n .empty, []⟩

inductive Reaches (w₀ : Workspace) : Workspace → Prop
  | refl : Reaches w₀ w₀
  | perform {w : Workspace} (h : Reaches w₀ w) (action : Action) :
      Reaches w₀ (w.perform action).1

/-- Some actions lead from one workspace to the other, and place `j` there holds what has become of
table `k` here, or of a copy made of it on the way. -/
inductive LeadsTo (w : Workspace) (k : Nat) : Workspace → Nat → Prop
  | refl : LeadsTo w k w k
  | perform {w' : Workspace} {j : Nat} (h : LeadsTo w k w' j) (action : Action) :
      LeadsTo w k (w'.perform action).1 j
  | copy {w' : Workspace} {j : Nat} (h : LeadsTo w k w' j) :
      LeadsTo w k (w'.perform (.copy j)).1 w'.tables.length

variable {w w' : Workspace} {k j : Nat} {t : NameTable}

theorem Reaches.performAll {w₀ : Workspace} (h : Reaches w₀ w) (actions : List Action) :
    Reaches w₀ (w.performAll actions).1 := by
  induction actions generalizing w with
  | nil => exact h
  | cons action actions ih => exact ih (h.perform action)

theorem LeadsTo.performAll (h : LeadsTo w k w' j) (actions : List Action) :
    LeadsTo w k (w'.performAll actions).1 j := by
  induction actions generalizing w' with
  | nil => exact h
  | cons action actions ih => exact ih (h.perform action)

/-! ## One step -/

theorem consistent_perform (hw : ∀ t ∈ w.tables, t.IsConsistent) (action : Action) :
    ∀ t ∈ (w.perform action).1.tables, t.IsConsistent := by
  rcases tables_perform_cases w action with heq | ⟨k, a, t, -, hk, heq⟩ | ⟨k, t, -, hk, heq⟩
  · rw [heq]
    exact hw
  · rw [heq]
    intro t' ht'
    rcases List.mem_or_eq_of_mem_set ht' with ht' | rfl
    · exact hw t' ht'
    · exact isConsistent_actOnTable (hw t (List.mem_of_getElem? hk)) a
  · rw [heq, List.forall_mem_append, List.forall_mem_singleton]
    exact ⟨hw, hw t (List.mem_of_getElem? hk)⟩

/-- A table stays in its place and only grows, and it does so only under an action of its own. -/
theorem grows_perform (hk : w.tables[k]? = some t) (action : Action) :
    ∃ t', (w.perform action).1.tables[k]? = some t' ∧ t.names <+: t'.names ∧
      ((∀ a, w.tableAction? action ≠ some (k, a)) → t' = t) := by
  obtain ⟨hlt, -⟩ := List.getElem?_eq_some_iff.1 hk
  rcases tables_perform_cases w action with heq | ⟨i, a, u, haction, hi, heq⟩ | ⟨i, u, -, -, heq⟩
  · rw [heq]
    exact ⟨t, hk, List.prefix_refl _, fun _ => rfl⟩
  · rw [heq]
    by_cases hik : i = k
    · subst hik
      obtain rfl : u = t := Option.some.inj (hi.symm.trans hk)
      refine ⟨(actOnTable u a).1, List.getElem?_set_self hlt, names_prefix_actOnTable u a, ?_⟩
      exact fun hother => absurd haction (hother a)
    · rw [List.getElem?_set_ne hik]
      exact ⟨t, hk, List.prefix_refl _, fun _ => rfl⟩
  · rw [heq, List.getElem?_append_left hlt]
    exact ⟨t, hk, List.prefix_refl _, fun _ => rfl⟩

theorem length_perform (w : Workspace) (action : Action) :
    (w.perform action).1.tables.length = w.tables.length ∨
      ∃ k t, action = .copy k ∧ w.tables[k]? = some t ∧
        (w.perform action).1.tables = w.tables ++ [t] := by
  rcases tables_perform_cases w action with heq | ⟨k, a, t, -, -, heq⟩ | hcopy
  · exact .inl (congrArg List.length heq)
  · exact .inl (by rw [heq, List.length_set])
  · exact .inr hcopy

/-- What a step returns stands for what it was encoded from, in the table that encoded it. -/
theorem decodes_perform (hw : ∀ t ∈ w.tables, t.IsConsistent) {action : Action} {a : TableAction}
    (h : w.tableAction? action = some (k, a)) {reply : Reply}
    (hreply : (w.perform action).2 = .ok reply) :
    ∃ t, (w.perform action).1.tables[k]? = some t ∧
      List.Forall₂ (fun clause source => t.Decodes clause source.signedNames) reply.returned
        a.sources := by
  obtain ⟨htables, hresult⟩ := perform_of_tableAction h
  rw [htables]
  rw [hresult] at hreply
  cases hk : w.tables[k]? with
  | none =>
      rw [onTable_of_none hk] at hreply
      exact nomatch hreply
  | some t =>
      rw [onTable_of_some hk] at hreply ⊢
      obtain ⟨hlt, -⟩ := List.getElem?_eq_some_iff.1 hk
      refine ⟨(actOnTable t a).1, List.getElem?_set_self hlt, ?_⟩
      exact decodes_actOnTable (hw t (List.mem_of_getElem? hk)) hreply

/-! ## All histories -/

theorem Reaches.consistent {w₀ : Workspace} (hw₀ : ∀ t ∈ w₀.tables, t.IsConsistent)
    (h : Reaches w₀ w) : ∀ t ∈ w.tables, t.IsConsistent := by
  induction h with
  | refl => exact hw₀
  | perform _ action ih => exact consistent_perform ih action

theorem consistent_fresh (n : Nat) : ∀ t ∈ (fresh n).tables, t.IsConsistent := by
  intro t ht
  obtain rfl := List.eq_of_mem_replicate ht
  exact NameTable.isConsistent_empty

theorem LeadsTo.names_prefix (h : LeadsTo w k w' j) (hk : w.tables[k]? = some t) :
    ∃ t', w'.tables[j]? = some t' ∧ t.names <+: t'.names := by
  induction h with
  | refl => exact ⟨t, hk, List.prefix_refl _⟩
  | perform _ action ih =>
      obtain ⟨t', hj, hgrown⟩ := ih
      obtain ⟨t'', hj', hgrown', -⟩ := grows_perform hj action
      exact ⟨t'', hj', hgrown.trans hgrown'⟩
  | @copy w' j _ ih =>
      obtain ⟨t', hj, hgrown⟩ := ih
      refine ⟨t', ?_, hgrown⟩
      rw [Workspace.perform, hj]
      exact List.getElem?_concat_length

/-- However actions on some tables and streams are interleaved: in every table the names are
distinct and looking up is the inverse of their list. The next action changes only the table on
which it works, and appends names to it; a table comes in only as a copy. And the clauses that it
returns stand from then on for the signed names of their lines or integers, in their table and in
all copies of it. -/
theorem consistent_of_reaches {n : Nat} (h : Reaches (fresh n) w) :
    (∀ (k : Nat) (t : NameTable), w.tables[k]? = some t →
      t.names.Nodup ∧
      (∀ name i, (w.perform (.onTable k (.find name))).2 = .ok (.number i) ↔
        t.names[i]? = some name) ∧
      (∀ name, (w.perform (.onTable k (.find name))).2 = .error .unknownName ↔
        name ∉ t.names) ∧
      ∀ name, (w.perform (.onTable k (.contains name))).2 =
        .ok (.truth (decide (name ∈ t.names)))) ∧
    ∀ action : Action,
      (∀ (k : Nat) (t : NameTable), w.tables[k]? = some t →
        ∃ t', (w.perform action).1.tables[k]? = some t' ∧ t.names <+: t'.names ∧
          ((∀ a, w.tableAction? action ≠ some (k, a)) → t' = t)) ∧
      ((w.perform action).1.tables.length = w.tables.length ∨
        ∃ k t, action = .copy k ∧ w.tables[k]? = some t ∧
          (w.perform action).1.tables = w.tables ++ [t]) ∧
      ∀ (k : Nat) (a : TableAction) (reply : Reply), w.tableAction? action = some (k, a) →
        (w.perform action).2 = .ok reply →
        ∀ (w' : Workspace) (j : Nat), LeadsTo (w.perform action).1 k w' j →
          ∃ t, w'.tables[j]? = some t ∧
            List.Forall₂ (fun clause source => t.Decodes clause source.signedNames) reply.returned
              a.sources := by
  have hw : ∀ t ∈ w.tables, t.IsConsistent := h.consistent (consistent_fresh n)
  refine ⟨?_, fun action => ⟨fun k t hk => grows_perform hk action, length_perform w action, ?_⟩⟩
  · intro k t hk
    have ht := hw t (List.mem_of_getElem? hk)
    have honTable : ∀ a, (w.perform (.onTable k a)).2 = (actOnTable t a).2 := by
      intro a
      rw [perform, onTable_of_some hk]
    refine ⟨ht.nodup, fun name i => ?_, fun name => ?_, fun name => ?_⟩
    · rw [honTable]
      exact find_eq_ok_iff ht
    · rw [honTable]
      exact find_eq_error_iff ht
    · rw [honTable]
      exact contains_eq ht name
  · intro k a reply ha hreply w' j hleads
    obtain ⟨t, hk, hdecodes⟩ := decodes_perform hw ha hreply
    obtain ⟨t', hj, hgrown⟩ := hleads.names_prefix hk
    exact ⟨t', hj, hdecodes.imp fun _ _ hclause => hclause.mono hgrown⟩

/-- Two streams are read into one of two tables, turn by turn. In between, the other table numbers
integers, a line fails, and the table is copied; later a stream fails too. The clause that came
first stands for the same in the table and in the copy. -/
theorem consistent_of_reaches_interleaved :
    let opened := ((fresh 2).performAll
      [.openStream 0 ["A ~B", "C A"], .openStream 0 ["D", "B ~~"]]).1
    let pulled := (opened.perform (.pull 0)).1
    let before := (pulled.performAll [.onTable 1 (.encodeIntegers [[3, -1]]), .pull 1,
      .onTable 0 (.readLine "E ~")]).1
    let w := ((before.perform (.copy 0)).1.performAll [.pull 0, .pull 1]).1
    w.tables.map NameTable.names =
      [["A", "B", "D", "E", "C"], ["3", "1"], ["A", "B", "D", "E"]] ∧
    (∀ name i, (w.perform (.onTable 0 (.find name))).2 = .ok (.number i) ↔
      ["A", "B", "D", "E", "C"][i]? = some name) ∧
    (opened.perform (.pull 0)).2 = .ok (.clause [⟨0⟩, ⟨3⟩]) ∧
    ∀ j ∈ [0, 2], ∃ t, w.tables[j]? = some t ∧
      t.Decodes [⟨0⟩, ⟨3⟩] [.ok ⟨"A", false⟩, .ok ⟨"B", true⟩] := by
  intro opened pulled before w
  have hopened : Reaches (fresh 2) opened := Reaches.refl.performAll _
  have hw : Reaches (fresh 2) w :=
    (((hopened.perform (.pull 0)).performAll _).perform (.copy 0)).performAll _
  have hreply : (opened.perform (.pull 0)).2 = .ok (.clause [⟨0⟩, ⟨3⟩]) := by decide +kernel
  obtain ⟨htables, -⟩ := consistent_of_reaches hw
  obtain ⟨-, hsteps⟩ := consistent_of_reaches hopened
  obtain ⟨-, -, hclause⟩ := hsteps (.pull 0)
  have hlater := hclause 0 (.readLine "A ~B") _ (by decide +kernel) hreply
  have hkept : LeadsTo pulled 0 before 0 := LeadsTo.refl.performAll _
  refine ⟨by decide +kernel, ?_, hreply, ?_⟩
  · have htable : w.tables[0]?.map NameTable.names = some ["A", "B", "D", "E", "C"] := by
      decide +kernel
    obtain ⟨t, ht, hnames⟩ := Option.map_eq_some_iff.1 htable
    rw [← hnames]
    exact (htables 0 t ht).2.1
  · have hline : NameTable.lineNames "A ~B" = [.ok ⟨"A", false⟩, .ok ⟨"B", true⟩] := by
      decide +kernel
    intro j hj
    have hleads : LeadsTo pulled 0 w j := by
      rcases List.mem_pair.1 hj with rfl | rfl
      · exact (hkept.perform (.copy 0)).performAll _
      · have hplace : before.tables.length = 2 := by decide +kernel
        exact (hplace ▸ hkept.copy).performAll _
    obtain ⟨t, ht, hdecodes⟩ := hlater w j hleads
    obtain ⟨hfirst, -⟩ := List.forall₂_cons.1 hdecodes
    exact ⟨t, ht, hline ▸ hfirst⟩

end CnfSolver.Workspace
