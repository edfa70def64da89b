import SchemaRpc.Proofs.Keyed
import SchemaRpc.Proofs.Notes.Operations

/-!
# What events say about single notes

Every event but a snapshot is about one note and leaves it in some state. Events that are replayed act note by note: the
last one about a note decides what becomes of it (`find?_replay`). The store changes by the events that it gives
(`NoteStore.Performs`).
-/

namespace SchemaRpc

namespace NoteEvent

/-- The note that an event is about. A snapshot is about no single one. -/
def about? : NoteEvent → Option String
  | snapshot _ => none
  | created note => some note.id
  | updated note => some note.id
  | deleted id => some id

/-- What an event leaves of the note that it is about. -/
def left? : NoteEvent → Option Note
  | created note => some note
  | updated note => some note
  | _ => none

/-- The event tells of a change. -/
def IsChange (event : NoteEvent) : Prop :=
  event.about? ≠ none

def concerning (id : String) (events : List NoteEvent) : List NoteEvent :=
  events.filter fun event => event.about? = some id

def lastAbout? (id : String) (events : List NoteEvent) : Option NoteEvent :=
  (concerning id events).getLast?

variable {id : String} {event : NoteEvent} {events : List NoteEvent} {notes : Entries Note}

theorem concerns_none (isChange : event.IsChange) : event.concerns none = true := by
  cases event with
  | snapshot all =>
      exact absurd rfl isChange
  | created | updated | deleted =>
      rfl

theorem mem_concerning : event ∈ concerning id events ↔ event ∈ events ∧ event.about? = some id := by
  simp [concerning]

/-- Where all events are about known notes, none concerns another. -/
theorem concerning_eq_nil {known : List String} (about : ∀ event ∈ events, event.about? ∈ known.map some)
    (other : id ∉ known) : concerning id events = [] := by
  refine List.eq_nil_iff_forall_not_mem.2 fun event member => ?_
  obtain ⟨listed, same⟩ := mem_concerning.1 member
  obtain ⟨_, isKnown, isAbout⟩ := List.mem_map.1 (about event listed)
  cases isAbout.trans same
  exact other isKnown

/-- Nothing is last about a note exactly where nothing is about it. -/
theorem lastAbout?_eq_none_iff : lastAbout? id events = none ↔ ∀ event ∈ events, event.about? ≠ some id := by
  rw [lastAbout?, List.getLast?_eq_none_iff, concerning, List.filter_eq_nil_iff]
  simp

theorem lastAbout?_cons :
    lastAbout? id (event :: events) =
      (lastAbout? id events).or (if event.about? = some id then some event else none) := by
  by_cases same : event.about? = some id
  · simp [lastAbout?, concerning, same, List.getLast?_cons]
  · simp [lastAbout?, concerning, same]

/-- The last event about a note in the later part of a list is the last one in all of it. -/
theorem lastAbout?_of_suffix {later : List NoteEvent} (isLater : later <:+ events)
    (last : lastAbout? id later = some event) : lastAbout? id events = some event := by
  obtain ⟨earlier, rfl⟩ := isLater
  unfold lastAbout? concerning at *
  rw [List.filter_append, List.getLast?_append, last]
  rfl

/-! ## Replaying -/

theorem ascending_apply (ascending : Entries.Ascending notes) (event : NoteEvent) :
    Entries.Ascending (event.apply notes) := by
  cases event with
  | snapshot all =>
      exact Entries.ascending_ofPairs _
  | created note | updated note =>
      exact Entries.ascending_insert _ _ ascending
  | deleted id =>
      exact Entries.ascending_erase _ ascending

theorem ascending_replay (ascending : Entries.Ascending notes) (events : List NoteEvent) :
    Entries.Ascending (replay notes events) := by
  induction events generalizing notes with
  | nil =>
      exact ascending
  | cons event rest inductionHypothesis =>
      exact inductionHypothesis (ascending_apply ascending event)

/-- A change decides what becomes of its note and leaves all others as they are. -/
theorem find?_apply (ascending : Entries.Ascending notes) (isChange : event.IsChange) (id : String) :
    Entries.find? id (event.apply notes) =
      if event.about? = some id then event.left? else Entries.find? id notes := by
  cases event with
  | snapshot all =>
      exact absurd rfl isChange
  | created note | updated note =>
      by_cases same : note.id = id
      · subst same
        simp [NoteEvent.apply, about?, left?]
      · simp [NoteEvent.apply, about?, same, Entries.find?_insert_of_ne (Ne.symm same)]
  | deleted gone =>
      by_cases same : gone = id
      · subst same
        simp [NoteEvent.apply, about?, left?, Entries.find?_erase_self _ ascending]
      · simp [NoteEvent.apply, about?, same, Entries.find?_erase_of_ne (Ne.symm same)]

/-- The last change of a note decides what becomes of it; a note without change stays as it is. -/
theorem find?_replay (ascending : Entries.Ascending notes) (changes : ∀ event ∈ events, event.IsChange) (id : String) :
    Entries.find? id (replay notes events) =
      match lastAbout? id events with
      | some event => event.left?
      | none => Entries.find? id notes := by
  induction events generalizing notes with
  | nil =>
      rfl
  | cons event rest inductionHypothesis =>
      obtain ⟨isChange, changes⟩ := List.forall_mem_cons.1 changes
      have later := inductionHypothesis (ascending_apply ascending event) changes
      rw [lastAbout?_cons]
      show Entries.find? id (replay (event.apply notes) rest) = _
      rw [later, find?_apply ascending isChange]
      cases lastAbout? id rest with
      | some last =>
          rfl
      | none =>
          by_cases same : event.about? = some id
          · simp [same]
          · simp [same]

end NoteEvent

/-! ## Events of the store -/

namespace NoteStore

/-- Every note is filed once, under its own id. -/
structure Filed (store : NoteStore) : Prop where
  ascending : Entries.Ascending store.notes
  ids : ∀ entry ∈ store.notes, entry.2.id = entry.1

variable {store store' : NoteStore} {event? : Option NoteEvent}

theorem filed_new : Filed {} :=
  ⟨.nil, List.forall_mem_nil _⟩

/-- An operation does nothing and has no event, or it does to the store what its event says. -/
inductive Performs (store : NoteStore) : Option NoteEvent → NoteStore → Prop
  | refused : Performs store none store
  | changed (event : NoteEvent) (store' : NoteStore) :
      event.IsChange →
      store'.notes = event.apply store.notes →
      Performs store (some event) store'

theorem performs (filed : store.Filed) (now : Timestamp) (operation : NoteOperation) :
    store.Performs (store.perform now operation).1 (store.perform now operation).2 := by
  have does := store.does now operation
  generalize store.answer now operation = answer, (store.perform now operation).1 = event?,
    (store.perform now operation).2 = store' at does ⊢
  cases does with
  | created draft =>
      exact .changed _ _ (Option.some_ne_none _) rfl
  | @updated change note found =>
      have sameId : (change.apply now note).id = change.id := filed.ids _ (Entries.mem_of_find? found)
      refine .changed _ _ (Option.some_ne_none _) ?_
      show _ = Entries.insert (change.apply now note).id _ _
      rw [sameId]
  | deleted found =>
      exact .changed _ _ (Option.some_ne_none _) rfl
  | noneToUpdate | noneToDelete =>
      exact .refused

theorem ids_apply {notes : Entries Note} {event : NoteEvent} (isChange : event.IsChange)
    (ids : ∀ entry ∈ notes, entry.2.id = entry.1) : ∀ entry ∈ event.apply notes, entry.2.id = entry.1 := by
  intro entry member
  cases event with
  | snapshot all =>
      exact absurd rfl isChange
  | created note | updated note =>
      rcases Entries.mem_insert member with rfl | before
      · rfl
      · exact ids entry before
  | deleted id =>
      exact ids entry ((Entries.erase_sublist id notes).subset member)

theorem Performs.filed (performs : store.Performs event? store') (filed : store.Filed) : store'.Filed := by
  cases performs with
  | refused =>
      exact filed
  | changed event _ isChange same =>
      constructor
      · rw [same]
        exact NoteEvent.ascending_apply filed.ascending event
      · rw [same]
        exact ids_apply isChange filed.ids

theorem Performs.notes (performs : store.Performs event? store') :
    store'.notes = NoteEvent.replay store.notes event?.toList := by
  cases performs with
  | refused =>
      rfl
  | changed event _ _ same =>
      exact same

theorem Performs.changes (performs : store.Performs event? store') : ∀ event ∈ event?.toList, event.IsChange := by
  cases performs with
  | refused =>
      exact List.forall_mem_nil _
  | changed event _ isChange _ =>
      exact List.forall_mem_singleton.2 isChange

/-- Notes that are filed under their ids can be filed again. -/
theorem map_id_of_ids {notes : Entries Note} (ids : ∀ entry ∈ notes, entry.2.id = entry.1) :
    (notes.map Prod.snd).map (fun note => (note.id, note)) = notes := by
  rw [List.map_map]
  refine (List.map_congr_left fun entry member => ?_).trans (List.map_id _)
  exact Prod.ext (ids entry member) rfl

/-- The notes with a tag, filed. -/
def tagged (store : NoteStore) (tag : Option String) : Entries Note :=
  store.notes.filter fun entry => entry.2.matchesTag tag

theorem map_tagged (store : NoteStore) (tag : Option String) : (store.tagged tag).map Prod.snd = store.list tag := by
  rw [list, List.filter_map]
  rfl

theorem Filed.ascending_tagged (filed : store.Filed) (tag : Option String) : Entries.Ascending (store.tagged tag) :=
  List.Pairwise.filter _ filed.ascending

theorem Filed.ids_tagged (filed : store.Filed) (tag : Option String) :
    ∀ entry ∈ store.tagged tag, entry.2.id = entry.1 :=
  fun entry member => filed.ids entry (List.mem_filter.1 member).1

/-- The snapshot of a store has the store's contents. -/
theorem Filed.apply_snapshot (filed : store.Filed) (tag : Option String) (notes : Entries Note) :
    (NoteEvent.snapshot (store.list tag)).apply notes = store.tagged tag := by
  show Entries.ofPairs _ = _
  rw [← map_tagged, map_id_of_ids (filed.ids_tagged tag)]
  exact Entries.ofPairs_of_ascending (filed.ascending_tagged tag)

theorem tagged_none (store : NoteStore) : store.tagged none = store.notes :=
  List.filter_eq_self.2 fun _ _ => rfl

end NoteStore

end SchemaRpc
