import SchemaRpc.Entries
import SchemaRpc.Json.Basic

/-!
# Keyed lists

Entries and JSON members are both lists of keyed values, and both are filled by putting one pair after another. With
different keys nothing is lost on the way: the members are the pairs themselves, and the entries find what the pairs
find. With a repeated key the last pair counts, and the members are fewer than the pairs.
-/

namespace SchemaRpc

theorem Entries.find?_eq_lookup {α : Type} (key : String) (entries : Entries α) :
    Entries.find? key entries = entries.lookup key := by
  induction entries with
  | nil =>
      rfl
  | cons head tail inductionHypothesis =>
      obtain ⟨k, value⟩ := head
      by_cases same : k = key
      · simp [same]
      · rw [Entries.find?_cons, if_neg same, inductionHypothesis, List.lookup_cons,
          beq_false_of_ne (Ne.symm same)]

theorem lookup_eq_none_of_not_mem {α : Type} {key : String} {pairs : List (String × α)}
    (fresh : key ∉ pairs.map Prod.fst) : pairs.lookup key = none := by
  refine List.lookup_eq_none_iff.2 fun pair member => ?_
  have different : key ≠ pair.1 := by
    intro same
    rw [same] at fresh
    exact fresh (List.mem_map_of_mem member)
  exact bne_iff_ne.2 different

theorem mem_of_lookup {α : Type} {key : String} {value : α} {pairs : List (String × α)}
    (found : pairs.lookup key = some value) : (key, value) ∈ pairs := by
  rw [← Entries.find?_eq_lookup] at found
  exact Entries.mem_of_find? found

/-- Under different keys every pair is found under its own. -/
theorem lookup_of_mem {α : Type} {key : String} {value : α} {pairs : List (String × α)}
    (distinct : (pairs.map Prod.fst).Nodup) (member : (key, value) ∈ pairs) : pairs.lookup key = some value := by
  induction pairs with
  | nil =>
      cases member
  | cons head tail inductionHypothesis =>
      obtain ⟨k, first⟩ := head
      obtain ⟨fresh, distinct⟩ := List.nodup_cons.1 distinct
      rcases List.mem_cons.1 member with same | later
      · cases same
        exact List.lookup_cons_self
      · have different : (key == k) = false :=
          beq_false_of_ne fun same => fresh (List.mem_map.2 ⟨(key, value), later, same⟩)
        rw [List.lookup_cons, different]
        exact inductionHypothesis distinct later

theorem lookup_map {α β : Type} (f : α → β) (key : String) (pairs : List (String × α)) :
    (pairs.map fun pair => (pair.1, f pair.2)).lookup key = (pairs.lookup key).map f := by
  induction pairs with
  | nil =>
      rfl
  | cons head tail inductionHypothesis =>
      obtain ⟨k, value⟩ := head
      by_cases same : key = k
      · simp [same]
      · simpa [List.lookup_cons, beq_false_of_ne same] using inductionHypothesis

/-! ## Collecting parts under keys -/

/-- What there is for each of some items, under the key of the item, in the order of the items. -/
def collect {ι α : Type} (key : ι → String) (part? : ι → Option α) (items : List ι) : List (String × α) :=
  items.filterMap fun item => (part? item).map (key item, ·)

section Collect

variable {ι α : Type} {key : ι → String} {part? : ι → Option α} {items : List ι}

theorem collect_cons (head : ι) (tail : List ι) :
    collect key part? (head :: tail) =
      ((part? head).map (key head, ·)).toList ++ collect key part? tail := by
  unfold collect
  cases found : part? head with
  | none =>
      simp [found]
  | some value =>
      simp [found]

theorem collect_congr {part?' : ι → Option α} (same : ∀ item ∈ items, part? item = part?' item) :
    collect key part? items = collect key part?' items := by
  induction items with
  | nil =>
      rfl
  | cons head tail inductionHypothesis =>
      obtain ⟨sameHead, sameTail⟩ := List.forall_mem_cons.1 same
      rw [collect_cons, collect_cons, sameHead, inductionHypothesis sameTail]

theorem keys_collect :
    (collect key part? items).map Prod.fst = (items.filter fun item => (part? item).isSome).map key := by
  induction items with
  | nil =>
      rfl
  | cons head tail inductionHypothesis =>
      rw [collect_cons]
      cases found : part? head with
      | none =>
          simp [found, inductionHypothesis]
      | some value =>
          simp [found, inductionHypothesis]

theorem keys_collect_sublist : ((collect key part? items).map Prod.fst).Sublist (items.map key) := by
  rw [keys_collect]
  exact List.filter_sublist.map key

theorem lookup_collect_of_not_mem {other : String} (fresh : other ∉ items.map key) :
    (collect key part? items).lookup other = none :=
  lookup_eq_none_of_not_mem fun present => fresh (keys_collect_sublist.subset present)

/-- Under different keys every item finds its own part. -/
theorem lookup_collect (distinct : (items.map key).Nodup) {item : ι} (member : item ∈ items) :
    (collect key part? items).lookup (key item) = part? item := by
  induction items with
  | nil =>
      cases member
  | cons head tail inductionHypothesis =>
      obtain ⟨fresh, distinct⟩ := List.nodup_cons.1 distinct
      rw [collect_cons, List.lookup_append]
      rcases List.mem_cons.1 member with rfl | member
      · rw [lookup_collect_of_not_mem fresh]
        cases part? item with
        | none =>
            rfl
        | some value =>
            simp
      · have different : (key item == key head) = false := by
          refine beq_false_of_ne fun same => ?_
          rw [← same] at fresh
          exact fresh (List.mem_map_of_mem member)
        rw [inductionHypothesis distinct member]
        cases part? head with
        | none =>
            rfl
        | some value =>
            simp [List.lookup_cons, different]

/-- Under different keys a part is found exactly where an item has it. -/
theorem lookup_collect_eq_some_iff (distinct : (items.map key).Nodup) {other : String} {value : α} :
    (collect key part? items).lookup other = some value ↔
      ∃ item ∈ items, key item = other ∧ part? item = some value := by
  constructor
  · intro found
    by_cases listed : other ∈ items.map key
    · obtain ⟨item, member, rfl⟩ := List.mem_map.1 listed
      rw [lookup_collect distinct member] at found
      exact ⟨item, member, rfl, found⟩
    · rw [lookup_collect_of_not_mem listed] at found
      cases found
  · rintro ⟨item, member, rfl, found⟩
    rw [lookup_collect distinct member]
    exact found

end Collect

/-! ## Entries of pairs -/

namespace Entries

variable {α : Type}

/-- What is found after an entry was put is that entry, or was there before. -/
theorem find?_of_insert {key other : String} {value found : α} {entries : Entries α}
    (present : find? other (insert key value entries) = some found) :
    other = key ∧ found = value ∨ find? other entries = some found := by
  by_cases same : other = key
  · subst same
    rw [find?_insert_self] at present
    exact .inl ⟨rfl, (Option.some.inj present).symm⟩
  · rw [find?_insert_of_ne same] at present
    exact .inr present

theorem find?_foldl_insert (key : String) (pairs : List (String × α)) (done : Entries α)
    (distinct : (pairs.map Prod.fst).Nodup) :
    find? key (pairs.foldl (fun entries (key, value) => entries.insert key value) done) =
      (pairs.lookup key).or (find? key done) := by
  induction pairs generalizing done with
  | nil =>
      rfl
  | cons head tail inductionHypothesis =>
      obtain ⟨k, value⟩ := head
      obtain ⟨fresh, distinct⟩ := List.nodup_cons.1 distinct
      rw [List.foldl_cons, inductionHypothesis _ distinct]
      by_cases same : key = k
      · subst same
        rw [lookup_eq_none_of_not_mem fresh, find?_insert_self]
        simp
      · rw [find?_insert_of_ne same, List.lookup_cons, beq_false_of_ne same]

theorem find?_ofPairs {pairs : List (String × α)} (distinct : (pairs.map Prod.fst).Nodup) (key : String) :
    find? key (ofPairs pairs) = pairs.lookup key := by
  unfold ofPairs
  rw [find?_foldl_insert key pairs [] distinct]
  simp

theorem nodup_keys_of_ascending {entries : Entries α} (ascending : Ascending entries) :
    (entries.map Prod.fst).Nodup := by
  rw [List.nodup_iff_pairwise_ne, List.pairwise_map]
  refine ascending.imp fun before same => ?_
  rw [same] at before
  exact String.lt_irrefl _ before

/-- Entries that are in order already are the entries of themselves. -/
theorem ofPairs_of_ascending {entries : Entries α} (ascending : Ascending entries) : ofPairs entries = entries := by
  refine ext (ascending_ofPairs entries) ascending fun key => ?_
  rw [find?_ofPairs (nodup_keys_of_ascending ascending), find?_eq_lookup]

/-- A key that is there once is gone once it is taken out. -/
theorem find?_erase_self_of_nodup {key : String} {entries : Entries α} (once : (entries.map Prod.fst).Nodup) :
    find? key (erase key entries) = none := by
  induction entries with
  | nil =>
      rfl
  | cons head tail inductionHypothesis =>
      obtain ⟨k, v⟩ := head
      obtain ⟨fresh, once⟩ := List.nodup_cons.1 once
      by_cases same : k = key
      · subst same
        rw [erase, if_pos rfl, find?_eq_lookup]
        exact lookup_eq_none_of_not_mem fresh
      · rw [erase, if_neg same, find?_cons, if_neg same]
        exact inductionHypothesis once

theorem nodup_keys_erase {entries : Entries α} (once : (entries.map Prod.fst).Nodup) (key : String) :
    ((erase key entries).map Prod.fst).Nodup :=
  ((erase_sublist key entries).map Prod.fst).nodup once

/-- Keys that were gone stay gone when one more is taken out. -/
theorem find?_erase_of_gone {taken : List String} {entries : Entries α} (once : (entries.map Prod.fst).Nodup)
    (gone : ∀ key ∈ taken, find? key entries = none) (key : String) :
    ∀ other ∈ key :: taken, find? other (erase key entries) = none := by
  refine List.forall_mem_cons.2 ⟨find?_erase_self_of_nodup once, fun other member => ?_⟩
  by_cases same : other = key
  · rw [same]
    exact find?_erase_self_of_nodup once
  · rw [find?_erase_of_ne same]
    exact gone other member

/-- A key after all others is put last. -/
theorem insert_of_forall_lt {key : String} {value : α} {entries : Entries α}
    (smaller : ∀ entry ∈ entries, entry.1 < key) : insert key value entries = entries ++ [(key, value)] := by
  induction entries with
  | nil =>
      rfl
  | cons head tail inductionHypothesis =>
      obtain ⟨k, v⟩ := head
      have before : k < key := smaller (k, v) List.mem_cons_self
      have different : k ≠ key := fun same => String.lt_irrefl key (same ▸ before)
      have notAfter : ¬ key < k := fun after => String.lt_irrefl key (String.lt_trans after before)
      rw [insert, if_neg different, if_neg notAfter,
        inductionHypothesis fun entry member => smaller entry (List.mem_cons_of_mem _ member)]
      rfl

/-- An entry under a new key is one more. -/
theorem perm_insert {key : String} {entries : Entries α} (fresh : find? key entries = none) (value : α) :
    (insert key value entries).Perm ((key, value) :: entries) := by
  induction entries with
  | nil =>
      exact .refl _
  | cons head tail inductionHypothesis =>
      obtain ⟨k, v⟩ := head
      by_cases same : k = key
      · rw [find?_cons, if_pos same] at fresh
        cases fresh
      · rw [find?_cons, if_neg same] at fresh
        by_cases before : key < k
        · rw [insert, if_neg same, if_pos before]
        · rw [insert, if_neg same, if_neg before]
          exact ((inductionHypothesis fresh).cons _).trans (.swap _ _ _)

end Entries

/-! ## Members of pairs -/

theorem Json.arr_ne_null (items : List Json) : Json.arr items ≠ .null :=
  nofun

theorem Json.obj_ne_null (members : Json.Members) : Json.obj members ≠ .null :=
  nofun

namespace Json.Members

theorem get?_eq_find? (key : String) (members : Members) : get? key members = Entries.find? key members :=
  (Entries.find?_eq_lookup key members).symm

theorem set_of_not_mem {key : String} {value : Json} {members : Members} (fresh : key ∉ members.map Prod.fst) :
    set key value members = members ++ [(key, value)] := by
  induction members with
  | nil =>
      rfl
  | cons head tail inductionHypothesis =>
      obtain ⟨k, v⟩ := head
      rw [List.map_cons, List.mem_cons, not_or] at fresh
      have different : (k == key) = false := beq_false_of_ne (Ne.symm fresh.1)
      rw [set, different, inductionHypothesis fresh.2]
      rfl

theorem keys_set_of_mem {key : String} {value : Json} {members : Members} (present : key ∈ members.map Prod.fst) :
    (set key value members).map Prod.fst = members.map Prod.fst := by
  induction members with
  | nil =>
      cases present
  | cons head tail inductionHypothesis =>
      obtain ⟨k, v⟩ := head
      by_cases same : k = key
      · simp [set, same]
      · rw [List.map_cons, List.mem_cons] at present
        have later := inductionHypothesis (present.resolve_left (Ne.symm same))
        simp [set, same, later]

theorem mem_set {key : String} {value : Json} {members : Members} {member : String × Json}
    (present : member ∈ set key value members) : member = (key, value) ∨ member ∈ members := by
  induction members with
  | nil =>
      exact .inl (List.mem_singleton.1 present)
  | cons head tail inductionHypothesis =>
      obtain ⟨k, v⟩ := head
      by_cases same : k = key
      · simp only [set, same, BEq.rfl, if_true, List.mem_cons] at present ⊢
        exact present.imp_right .inr
      · rw [set, beq_false_of_ne same] at present
        rcases List.mem_cons.1 present with rfl | present
        · exact .inr List.mem_cons_self
        · exact (inductionHypothesis present).imp_right (List.mem_cons_of_mem _)

/-- Whatever is put into members comes from the pairs or was there. -/
theorem mem_foldl_set {pairs : List (String × Json)} {done : Members} {member : String × Json}
    (present : member ∈ pairs.foldl (fun members (key, value) => members.set key value) done) :
    member ∈ pairs ∨ member ∈ done := by
  induction pairs generalizing done with
  | nil =>
      exact .inr present
  | cons head tail inductionHypothesis =>
      rcases inductionHypothesis present with inside | written
      · exact .inl (List.mem_cons_of_mem _ inside)
      · rcases mem_set written with rfl | before
        · exact .inl List.mem_cons_self
        · exact .inr before

theorem mem_of_mem_ofPairs {pairs : List (String × Json)} {member : String × Json} (present : member ∈ ofPairs pairs) :
    member ∈ pairs :=
  (mem_foldl_set present).resolve_right List.not_mem_nil

theorem foldl_set_of_nodup (pairs : List (String × Json)) (done : Members)
    (distinct : ((done ++ pairs).map Prod.fst).Nodup) :
    pairs.foldl (fun members (key, value) => members.set key value) done = done ++ pairs := by
  induction pairs generalizing done with
  | nil =>
      simp
  | cons head tail inductionHypothesis =>
      obtain ⟨k, value⟩ := head
      have fresh : k ∉ done.map Prod.fst := by
        rw [List.map_append, List.nodup_append] at distinct
        exact fun present => distinct.2.2 k present k (by simp) rfl
      have written : ((done ++ [(k, value)] ++ tail).map Prod.fst).Nodup := by
        simpa using distinct
      rw [List.foldl_cons]
      show tail.foldl _ (set k value done) = _
      rw [set_of_not_mem fresh, inductionHypothesis _ written]
      simp

/-- With different keys the members are the pairs. -/
theorem ofPairs_of_nodup {pairs : List (String × Json)} (distinct : (pairs.map Prod.fst).Nodup) :
    ofPairs pairs = pairs :=
  foldl_set_of_nodup pairs [] distinct

end Json.Members

end SchemaRpc
