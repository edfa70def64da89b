/-!
# Entries sorted by key

A list of keyed entries in ascending key order, each key once. Keys compare by code points, which is also the
order of their UTF-8 bytes. `find?` is the view of such a list: an insertion or an erasure changes it at one key
only, and keeps the order (`ascending_insert`, `ascending_erase`).
-/

namespace SchemaRpc

/-- Keyed entries; `insert` keeps them in ascending order and each key once. -/
abbrev Entries (α : Type) := List (String × α)

namespace Entries

variable {α : Type}

def insert (key : String) (value : α) : Entries α → Entries α
  | [] => [(key, value)]
  | (k, v) :: rest =>
    if k = key then (key, value) :: rest
    else if key < k then (key, value) :: (k, v) :: rest
    else (k, v) :: insert key value rest

def find? (key : String) : Entries α → Option α
  | [] => none
  | (k, v) :: rest => if k = key then some v else find? key rest

def erase (key : String) : Entries α → Entries α
  | [] => []
  | (k, v) :: rest => if k = key then rest else (k, v) :: erase key rest

def contains (key : String) (entries : Entries α) : Bool :=
  (entries.find? key).isSome

/-- The sorted entries of any pairs; of two pairs with one key the later counts. -/
def ofPairs (pairs : List (String × α)) : Entries α :=
  pairs.foldl (fun entries (key, value) => entries.insert key value) []

def Ascending (entries : Entries α) : Prop :=
  List.Pairwise (fun a b => a.1 < b.1) entries

@[simp]
theorem find?_nil (key : String) : find? key ([] : Entries α) = none := rfl

@[simp]
theorem find?_cons (key k : String) (v : α) (rest : Entries α) :
    find? key ((k, v) :: rest) = if k = key then some v else find? key rest := rfl

@[simp]
theorem find?_insert_self (key : String) (value : α) (entries : Entries α) :
    find? key (insert key value entries) = some value := by
  induction entries with
  | nil => simp [insert]
  | cons head tail inductionHypothesis =>
    obtain ⟨k, v⟩ := head
    by_cases same : k = key
    · simp [insert, same]
    · by_cases before : key < k <;> simp [insert, same, before, inductionHypothesis]

theorem find?_insert_of_ne {key other : String} (different : other ≠ key) (value : α) (entries : Entries α) :
    find? other (insert key value entries) = find? other entries := by
  induction entries with
  | nil => simp [insert, Ne.symm different]
  | cons head tail inductionHypothesis =>
    obtain ⟨k, v⟩ := head
    by_cases same : k = key
    · subst same
      simp [insert, Ne.symm different]
    · by_cases before : key < k <;> simp [insert, same, before, inductionHypothesis, Ne.symm different]

theorem find?_map (key : String) (f : α → α) (entries : Entries α) :
    find? key (entries.map fun (k, v) => (k, f v)) = (find? key entries).map f := by
  induction entries with
  | nil => rfl
  | cons head tail inductionHypothesis =>
    obtain ⟨k, v⟩ := head
    by_cases same : k = key <;> simp [same, inductionHypothesis]

theorem mem_of_find? {key : String} {value : α} {entries : Entries α} (found : find? key entries = some value) :
    (key, value) ∈ entries := by
  induction entries with
  | nil => simp at found
  | cons head tail inductionHypothesis =>
    obtain ⟨k, v⟩ := head
    by_cases same : k = key
    · subst same
      simp only [find?_cons, if_true, Option.some.injEq] at found
      exact found ▸ List.mem_cons_self
    · rw [find?_cons, if_neg same] at found
      exact List.mem_cons_of_mem _ (inductionHypothesis found)

theorem mem_insert {key : String} {value : α} {entries : Entries α} {entry : String × α}
    (member : entry ∈ insert key value entries) : entry = (key, value) ∨ entry ∈ entries := by
  induction entries with
  | nil => simpa [insert] using member
  | cons head tail inductionHypothesis =>
    obtain ⟨k, v⟩ := head
    by_cases same : k = key
    · simp only [insert, same, if_true, List.mem_cons] at member ⊢
      exact member.imp_right Or.inr
    · by_cases before : key < k
      · simpa [insert, same, before] using member
      · simp only [insert, same, before, if_false, List.mem_cons] at member ⊢
        rcases member with rfl | member
        · exact .inr (.inl rfl)
        · exact (inductionHypothesis member).imp_right .inr

theorem ascending_insert (key : String) (value : α) {entries : Entries α} (ascending : Ascending entries) :
    Ascending (insert key value entries) := by
  induction entries with
  | nil => exact List.pairwise_singleton _ _
  | cons head tail inductionHypothesis =>
    obtain ⟨k, v⟩ := head
    obtain ⟨first, rest⟩ := List.pairwise_cons.1 ascending
    by_cases same : k = key
    · subst same
      simp only [insert, if_true]
      exact List.pairwise_cons.2 ⟨first, rest⟩
    · by_cases before : key < k
      · simp only [insert, same, before, if_false, if_true]
        refine List.pairwise_cons.2 ⟨fun entry member => ?_, ascending⟩
        rcases List.mem_cons.1 member with rfl | member
        · exact before
        · exact String.lt_trans before (first entry member)
      · simp only [insert, same, before, if_false]
        refine List.pairwise_cons.2 ⟨fun entry member => ?_, inductionHypothesis rest⟩
        rcases mem_insert member with rfl | member
        · exact Decidable.byContradiction fun notAfter =>
            same (String.le_antisymm (String.not_lt.1 before) (String.not_lt.1 notAfter))
        · exact first entry member

theorem ascending_ofPairs (pairs : List (String × α)) : Ascending (ofPairs pairs) := by
  have general : ∀ entries : Entries α, Ascending entries →
      Ascending (pairs.foldl (fun entries (key, value) => entries.insert key value) entries) := by
    induction pairs with
    | nil => exact fun _ ascending => ascending
    | cons pair rest inductionHypothesis =>
      exact fun _ ascending => inductionHypothesis _ (ascending_insert pair.1 pair.2 ascending)
  exact general [] .nil

theorem erase_sublist (key : String) (entries : Entries α) : (erase key entries).Sublist entries := by
  induction entries with
  | nil => exact .slnil
  | cons head tail inductionHypothesis =>
    obtain ⟨k, v⟩ := head
    by_cases same : k = key
    · simp [erase, same]
    · simpa [erase, same] using inductionHypothesis

theorem ascending_erase (key : String) {entries : Entries α} (ascending : Ascending entries) :
    Ascending (erase key entries) :=
  List.Pairwise.sublist (erase_sublist key entries) ascending

theorem find?_eq_none {key : String} {entries : Entries α} (smaller : ∀ entry ∈ entries, key < entry.1) :
    find? key entries = none := by
  induction entries with
  | nil => rfl
  | cons head tail inductionHypothesis =>
    obtain ⟨k, v⟩ := head
    have different : k ≠ key := fun same =>
      String.lt_irrefl key (same ▸ smaller (k, v) List.mem_cons_self)
    simp [different, inductionHypothesis fun entry member => smaller entry (List.mem_cons_of_mem _ member)]

/-- In ascending order every entry is the one found under its key. -/
theorem find?_of_mem {key : String} {value : α} {entries : Entries α} (ascending : Ascending entries)
    (member : (key, value) ∈ entries) : find? key entries = some value := by
  induction entries with
  | nil => simp at member
  | cons head tail inductionHypothesis =>
    obtain ⟨k, v⟩ := head
    obtain ⟨first, rest⟩ := List.pairwise_cons.1 ascending
    rcases List.mem_cons.1 member with equal | member
    · cases equal
      simp
    · have different : k ≠ key := fun same => String.lt_irrefl key (same ▸ first (key, value) member)
      rw [find?_cons, if_neg different]
      exact inductionHypothesis rest member

/-- Entries in ascending order are equal when the same is found under each key. -/
theorem ext {entries others : Entries α} (ascending : Ascending entries) (ascending' : Ascending others)
    (same : ∀ key, find? key entries = find? key others) : entries = others := by
  induction entries generalizing others with
  | nil =>
    cases others with
    | nil => rfl
    | cons head tail => simpa [find?] using same head.1
  | cons head tail inductionHypothesis =>
    obtain ⟨k, v⟩ := head
    cases others with
    | nil => simpa using same k
    | cons head' tail' =>
      obtain ⟨k', v'⟩ := head'
      obtain ⟨first, rest⟩ := List.pairwise_cons.1 ascending
      obtain ⟨first', rest'⟩ := List.pairwise_cons.1 ascending'
      -- the smaller of two different first keys would be missing on the other side
      have sameKey : k = k' := by
        have foundHere := same k
        have foundThere := same k'
        by_cases equal : k = k'
        · exact equal
        rw [find?_cons, if_pos rfl, find?_cons, if_neg (Ne.symm equal)] at foundHere
        rw [find?_cons, if_neg equal, find?_cons, if_pos rfl] at foundThere
        have after := first' _ (mem_of_find? foundHere.symm)
        have before := first _ (mem_of_find? foundThere)
        exact absurd (String.lt_trans before after) (String.lt_irrefl k)
      subst sameKey
      have sameValue : v = v' := by simpa using same k
      subst sameValue
      refine congrArg _ (inductionHypothesis rest rest' fun key => ?_)
      by_cases equal : k = key
      · subst equal
        rw [find?_eq_none first, find?_eq_none first']
      · simpa [equal] using same key

theorem find?_erase_self (key : String) {entries : Entries α} (ascending : Ascending entries) :
    find? key (erase key entries) = none := by
  induction entries with
  | nil => rfl
  | cons head tail inductionHypothesis =>
    obtain ⟨k, v⟩ := head
    obtain ⟨first, rest⟩ := List.pairwise_cons.1 ascending
    by_cases same : k = key
    · subst same
      simpa [erase] using find?_eq_none first
    · simpa [erase, same] using inductionHypothesis rest

theorem find?_erase_of_ne {key other : String} (different : other ≠ key) (entries : Entries α) :
    find? other (erase key entries) = find? other entries := by
  induction entries with
  | nil => rfl
  | cons head tail inductionHypothesis =>
    obtain ⟨k, v⟩ := head
    by_cases same : k = key
    · subst same
      simp [erase, Ne.symm different]
    · simp [erase, same, inductionHypothesis]

end Entries

end SchemaRpc
