import SchemaRpc.Proofs.Definitions.Table

/-!
# Names without a body

What `unresolvedRefs` lists, in order: the names that are reserved only, and those that a body refers to and that are not
in the table. A table that lists none of them is finished.
-/

namespace SchemaRpc.Definitions

variable {defs : Definitions} {name other : String} {names : List String}

theorem mem_insertName : other ∈ insertName name names ↔ other = name ∨ other ∈ names := by
  induction names with
  | nil =>
      simp [insertName]
  | cons head tail inductionHypothesis =>
      by_cases same : name = head
      · subst same
        simp [insertName]
      · by_cases before : name < head
        · simp [insertName, same, before]
        · simp only [insertName, same, before, if_false, List.mem_cons, inductionHypothesis]
          exact or_left_comm

theorem mem_foldl_insertName {done : List String} :
    other ∈ names.foldl (fun names name => insertName name names) done ↔ other ∈ names ∨ other ∈ done := by
  induction names generalizing done with
  | nil =>
      simp
  | cons head tail inductionHypothesis =>
      rw [List.foldl_cons, inductionHypothesis, mem_insertName, List.mem_cons]
      exact or_left_comm.trans or_assoc.symm

/-- Names are put where their order wants them, and not a second time. -/
theorem pairwise_insertName (ascending : names.Pairwise (· < ·)) : (insertName name names).Pairwise (· < ·) := by
  induction names with
  | nil =>
      exact List.pairwise_singleton _ _
  | cons head tail inductionHypothesis =>
      obtain ⟨first, rest⟩ := List.pairwise_cons.1 ascending
      by_cases same : name = head
      · simpa only [insertName, same, if_true] using ascending
      · by_cases before : name < head
        · simp only [insertName, same, before, if_false, if_true]
          refine List.pairwise_cons.2 ⟨List.forall_mem_cons.2 ⟨before, fun other later => ?_⟩, ascending⟩
          exact String.lt_trans before (first other later)
        · simp only [insertName, same, before, if_false]
          refine List.pairwise_cons.2 ⟨fun other listed => ?_, inductionHypothesis rest⟩
          rcases mem_insertName.1 listed with rfl | later
          · exact Decidable.byContradiction fun notAfter =>
              same (String.le_antisymm (String.not_lt.1 notAfter) (String.not_lt.1 before))
          · exact first other later

theorem pairwise_unresolvedRefs (defs : Definitions) : defs.unresolvedRefs.Pairwise (· < ·) := by
  have general (names done : List String) (ascending : done.Pairwise (· < ·)) :
      (names.foldl (fun names name => insertName name names) done).Pairwise (· < ·) := by
    induction names generalizing done with
    | nil =>
        exact ascending
    | cons head tail inductionHypothesis =>
        exact inductionHypothesis _ (pairwise_insertName ascending)
  exact general _ [] .nil

theorem mem_unresolvedRefs :
    name ∈ defs.unresolvedRefs ↔
      (∃ entry, (name, entry) ∈ defs.entries ∧ entry.body = none) ∨
        (∃ entry ∈ defs.completed, name ∈ entry.2.refs) ∧ defs.contains name = false := by
  unfold unresolvedRefs
  rw [mem_foldl_insertName]
  simp [List.mem_flatMap]

/-- No name is unresolved exactly when each entry has its body and each reference of a body has its entry. -/
theorem unresolvedRefs_eq_nil_iff :
    defs.unresolvedRefs = [] ↔
      (∀ entry ∈ defs.entries, entry.2.body ≠ none) ∧
        ∀ entry ∈ defs.completed, ∀ name ∈ entry.2.refs, defs.contains name = true := by
  rw [List.eq_nil_iff_forall_not_mem]
  constructor
  · intro none
    constructor
    · rintro ⟨name, entry⟩ listed bodiless
      exact none name (mem_unresolvedRefs.2 (.inl ⟨entry, listed, bodiless⟩))
    · intro entry listed name referred
      cases present : defs.contains name with
      | true =>
          rfl
      | false =>
          exact absurd (mem_unresolvedRefs.2 (.inr ⟨⟨entry, listed, referred⟩, present⟩)) (none name)
  · rintro ⟨bodies, present⟩ name unresolved
    rcases mem_unresolvedRefs.1 unresolved with ⟨entry, listed, bodiless⟩ | ⟨⟨entry, listed, referred⟩, missing⟩
    · exact bodies (name, entry) listed bodiless
    · rw [present entry listed name referred] at missing
      cases missing

end SchemaRpc.Definitions
