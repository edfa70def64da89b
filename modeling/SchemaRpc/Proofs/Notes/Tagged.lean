import Mathlib.Data.List.Basic
import SchemaRpc.Notes.Watch
import SchemaRpc.Proofs.Notes.Events

/-!
# Watching notes with a tag

A client of a watch starts from the snapshot and applies the events that the watch pushes. Between a note's creation (or
the snapshot) and its deletion every event leaves a version of it. The store has the last version, the client the last one
with the tag (`NoteEvent.find?_replay_concerning`): an update that takes the tag off is not pushed. So the client has what
the list of notes with the tag has unless a note without the tag had it before (`Watch.tracks_iff`).
-/

namespace SchemaRpc

/-! ## What a watch pushes -/

namespace NoteEvent

/-- An event as it is pushed. -/
def value (event : NoteEvent) : Value :=
  (Notes.eventDatum event).toValue

end NoteEvent

namespace Watch

/-- What a watch pushes from a reply on, while events come in and every push is taken, until it waits for more. -/
inductive Pushes : Watch → Reply NoteEvent → List NoteEvent → List Value → Prop
  | waits {watch next : Watch} {reply : Reply NoteEvent} {untilDone : Bool} :
      watch.next reply = (next, .receive untilDone) → Pushes watch reply [] []
  | receives {watch next : Watch} {reply : Reply NoteEvent} {untilDone : Bool} {event : NoteEvent}
      {events : List NoteEvent} {values : List Value} :
      watch.next reply = (next, .receive untilDone) →
      Pushes next (.received event) events values →
      Pushes watch reply (event :: events) values
  | pushes {watch next : Watch} {reply : Reply NoteEvent} {value : Value} {events : List NoteEvent}
      {values : List Value} :
      watch.next reply = (next, .push value) →
      Pushes next (.pushed (.ok ())) events values →
      Pushes watch reply events (value :: values)

variable {watch : Watch} {reply : Reply NoteEvent} {events : List NoteEvent} {values : List Value}

/-- What a client is told: the snapshot, and the events that concern the tag. -/
def told (watch : Watch) (events : List NoteEvent) : List NoteEvent :=
  .snapshot watch.notes :: events.filter fun event => event.concerns watch.tag

theorem pushes_push_iff {event : NoteEvent} (isPush : watch.next reply = (watch, push event)) :
    watch.Pushes reply events values ↔
      ∃ rest, values = event.value :: rest ∧ watch.Pushes (.pushed (.ok ())) events rest := by
  constructor
  · intro pushes
    cases pushes with
    | waits isReceive | receives isReceive _ =>
        cases isPush.symm.trans isReceive
    | pushes other rest =>
        cases isPush.symm.trans other
        exact ⟨_, rfl, rest⟩
  · rintro ⟨rest, rfl, pushes⟩
    exact .pushes isPush pushes

theorem pushes_waiting_iff (isReceive : watch.next reply = (watch, .receive true)) :
    watch.Pushes reply events values ↔
      values = (events.filter fun event => event.concerns watch.tag).map NoteEvent.value := by
  induction events generalizing reply values with
  | nil =>
      constructor
      · intro pushes
        cases pushes with
        | waits _ =>
            rfl
        | pushes isPush _ =>
            cases isReceive.symm.trans isPush
      · rintro rfl
        exact .waits isReceive
  | cons event events inductionHypothesis =>
      have received : watch.Pushes reply (event :: events) values ↔ watch.Pushes (.received event) events values := by
        constructor
        · intro pushes
          cases pushes with
          | receives again pushes =>
              cases isReceive.symm.trans again
              exact pushes
          | pushes isPush _ =>
              cases isReceive.symm.trans isPush
        · exact .receives isReceive
      rw [received]
      by_cases concerned : event.concerns watch.tag = true
      · have isPush : watch.next (.received event) = (watch, push event) :=
          congrArg (Prod.mk watch) (if_pos concerned)
        rw [pushes_push_iff isPush, List.filter_cons_of_pos concerned, List.map_cons]
        constructor
        · rintro ⟨rest, rfl, pushes⟩
          rw [(inductionHypothesis rfl).1 pushes]
        · rintro rfl
          exact ⟨_, rfl, (inductionHypothesis rfl).2 rfl⟩
      · have waits : watch.next (.received event) = (watch, .receive true) :=
          congrArg (Prod.mk watch) (if_neg concerned)
        rw [inductionHypothesis waits, List.filter_cons_of_neg concerned]

/-- A watch pushes the snapshot and then the events that concern it, and waits for more. -/
theorem pushes_entered_iff :
    watch.Pushes .entered events values ↔ values = (watch.told events).map NoteEvent.value := by
  have isPush : watch.next .entered = (watch, push (.snapshot watch.notes)) := rfl
  rw [pushes_push_iff isPush]
  constructor
  · rintro ⟨rest, rfl, pushes⟩
    rw [(pushes_waiting_iff rfl).1 pushes]
    rfl
  · rintro rfl
    exact ⟨_, rfl, (pushes_waiting_iff rfl).2 rfl⟩

end Watch

/-! ## Versions of notes -/

theorem Entries.find?_filter {α : Type} (p : α → Bool) {entries : Entries α} (ascending : Entries.Ascending entries)
    (key : String) :
    Entries.find? key (entries.filter fun entry => p entry.2) = (Entries.find? key entries).filter p := by
  cases found : Entries.find? key entries with
  | none =>
      refine Option.eq_none_iff_forall_ne_some.2 fun value kept => ?_
      have member := (List.mem_filter.1 (Entries.mem_of_find? kept)).1
      cases found.symm.trans (Entries.find?_of_mem ascending member)
  | some value =>
      have member := Entries.mem_of_find? found
      by_cases holds : p value = true
      · rw [Option.filter_some_pos holds]
        exact Entries.find?_of_mem (List.Pairwise.filter _ ascending) (List.mem_filter.2 ⟨member, holds⟩)
      · rw [Option.filter_some_neg (Bool.not_eq_true _ ▸ holds)]
        refine Option.eq_none_iff_forall_ne_some.2 fun other kept => ?_
        obtain ⟨member, holdsOther⟩ := List.mem_filter.1 (Entries.mem_of_find? kept)
        cases found.symm.trans (Entries.find?_of_mem ascending member)
        exact holds holdsOther

theorem getLast?_filter_of_last {α : Type} {p : α → Bool} {items : List α} {last : α} (isLast : items.getLast? = some last)
    (holds : p last = true) : (items.filter p).getLast? = some last := by
  obtain ⟨first, rfl⟩ := List.getLast?_eq_some_iff.1 isLast
  rw [List.filter_append, List.filter_singleton, holds]
  exact List.getLast?_concat

/-- The last of the items for which something holds is the last of all items, if that is one of them, exactly where it holds
for none of the items unless for the last. -/
theorem getLast?_filter_eq_iff {α : Type} (p : α → Bool) (items : List α) :
    (items.filter p).getLast? = items.getLast?.filter p ↔
      ∀ last, items.getLast? = some last → p last = false → ∀ item ∈ items, p item = false := by
  rcases items.eq_nil_or_concat' with rfl | ⟨first, last, rfl⟩
  · simp
  · rw [List.filter_append, List.getLast?_append, List.getLast?_concat]
    cases holds : p last with
    | true =>
        simp [holds, Option.filter_some_pos holds]
    | false =>
        rw [List.filter_singleton, holds, Option.filter_some_neg holds]
        show (first.filter p).getLast? = none ↔ _
        rw [List.getLast?_eq_none_iff, List.filter_eq_nil_iff]
        constructor
        · intro nowhere _ _ _ item listed
          rcases List.mem_append.1 listed with isFirst | isLast
          · exact Bool.not_eq_true _ ▸ nowhere item isFirst
          · rw [List.mem_singleton.1 isLast, holds]
        · intro nowhere item isFirst
          rw [nowhere last rfl holds item (List.mem_append_left _ isFirst)]
          exact Bool.false_ne_true

namespace NoteEvent

variable {tag : Option String} {event : NoteEvent} {events : List NoteEvent} {notes : Entries Note}

/-- The versions of a note, oldest first, after one more event. A deletion leaves none. -/
def addVersion (id : String) (versions : List Note) (event : NoteEvent) : List Note :=
  if event.about? = some id then
    match event.left? with
    | some note => versions ++ [note]
    | none => []
  else versions

/-- The versions of a note since it was last gone, oldest first. -/
def versions (id : String) (before : List Note) (events : List NoteEvent) : List Note :=
  events.foldl (addVersion id) before

/-- The notes are, one by one, the last versions with a tag. -/
def LastTagged (tag : Option String) (versions : String → List Note) (notes : Entries Note) : Prop :=
  ∀ id, Entries.find? id notes = ((versions id).filter (Note.matchesTag tag)).getLast?

/-- An event that is told leaves a version with the tag or none, one that is not told a version without the tag. -/
theorem lastTagged_apply {versions : String → List Note} (ascending : Entries.Ascending notes) (isChange : event.IsChange)
    (lastTagged : LastTagged tag versions notes) :
    LastTagged tag (fun id => addVersion id (versions id) event)
      (if event.concerns tag then event.apply notes else notes) := by
  intro id
  show _ = ((addVersion id (versions id) event).filter (Note.matchesTag tag)).getLast?
  cases event with
  | snapshot all =>
      exact absurd rfl isChange
  | created note | updated note =>
      by_cases hasTag : note.matchesTag tag = true
      · refine (congrArg (Entries.find? id) (if_pos hasTag)).trans ?_
        rw [find?_apply ascending isChange, addVersion, lastTagged id]
        split
        · simp [left?, hasTag]
        · rfl
      · refine (congrArg (Entries.find? id) (if_neg hasTag)).trans ?_
        rw [addVersion, lastTagged id]
        split
        · simp [left?, hasTag]
        · rfl
  | deleted gone =>
      show Entries.find? id (NoteEvent.apply notes (deleted gone)) = _
      rw [find?_apply ascending isChange, addVersion, lastTagged id]
      split
      · rfl
      · rfl

/-- A client to whom the events that concern a tag are told has the last version with the tag of every note. -/
theorem lastTagged_replay {before : String → List Note} (ascending : Entries.Ascending notes)
    (changes : ∀ event ∈ events, event.IsChange) (lastTagged : LastTagged tag before notes) :
    LastTagged tag (fun id => versions id (before id) events)
      (replay notes (events.filter fun event => event.concerns tag)) := by
  induction events generalizing notes before with
  | nil =>
      exact lastTagged
  | cons event rest inductionHypothesis =>
      obtain ⟨isChange, changes⟩ := List.forall_mem_cons.1 changes
      have next := lastTagged_apply ascending isChange lastTagged
      by_cases concerned : event.concerns tag = true
      · rw [if_pos concerned] at next
        rw [List.filter_cons_of_pos concerned]
        exact inductionHypothesis (ascending_apply ascending event) changes next
      · rw [if_neg concerned] at next
        rw [List.filter_cons_of_neg concerned]
        exact inductionHypothesis ascending changes next

/-- Whoever is told everything has the last version of every note. -/
theorem find?_replay_versions (ascending : Entries.Ascending notes) (changes : ∀ event ∈ events, event.IsChange)
    (id : String) :
    Entries.find? id (replay notes events) = (versions id (Entries.find? id notes).toList events).getLast? := by
  have everything : events.filter (fun event => event.concerns none) = events :=
    List.filter_eq_self.2 fun event listed => concerns_none (changes event listed)
  have all (versions : List Note) : versions.filter (Note.matchesTag none) = versions :=
    List.filter_eq_self.2 fun _ _ => rfl
  have start : LastTagged none (fun id => (Entries.find? id notes).toList) notes := by
    intro id
    show _ = ((Entries.find? id notes).toList.filter _).getLast?
    rw [all]
    cases Entries.find? id notes with
    | none =>
        rfl
    | some note =>
        rfl
  have last := lastTagged_replay ascending changes start id
  rwa [everything, all] at last

theorem ids_replay (changes : ∀ event ∈ events, event.IsChange) (ids : ∀ entry ∈ notes, entry.2.id = entry.1) :
    ∀ entry ∈ replay notes events, entry.2.id = entry.1 := by
  induction events generalizing notes with
  | nil =>
      exact ids
  | cons event rest inductionHypothesis =>
      obtain ⟨isChange, changes⟩ := List.forall_mem_cons.1 changes
      exact inductionHypothesis changes (NoteStore.ids_apply isChange ids)

end NoteEvent

/-! ## Operations after the snapshot -/

namespace NoteStore

/-- Carries out operations one after the other: the events that are published, and the store after them. -/
def performAll (store : NoteStore) : List (Timestamp × NoteOperation) → List NoteEvent × NoteStore
  | [] => ([], store)
  | (now, operation) :: rest =>
    let (event?, next) := store.perform now operation
    let (events, after) := next.performAll rest
    (event?.toList ++ events, after)

variable {store : NoteStore}

theorem mem_of_get? {id : String} {note : Note} (found : store.get? id = some note) : (id, note) ∈ store.notes :=
  Entries.mem_of_find? found

/-- The store becomes what the events say. -/
structure Undergoes (store : NoteStore) (events : List NoteEvent) (after : NoteStore) : Prop where
  filed : after.Filed
  changes : ∀ event ∈ events, event.IsChange
  notes : after.notes = NoteEvent.replay store.notes events

theorem undergoes (filed : store.Filed) (operations : List (Timestamp × NoteOperation)) :
    store.Undergoes (store.performAll operations).1 (store.performAll operations).2 := by
  induction operations generalizing store with
  | nil =>
      exact ⟨filed, List.forall_mem_nil _, rfl⟩
  | cons first rest inductionHypothesis =>
      have performs := store.performs filed first.1 first.2
      have later := inductionHypothesis (performs.filed filed)
      constructor
      case filed =>
        exact later.filed
      case changes =>
        exact List.forall_mem_append.2 ⟨performs.changes, later.changes⟩
      case notes =>
        refine later.notes.trans ?_
        rw [performs.notes, ← NoteEvent.replay_append]
        rfl

/-- The store has the last version of every note. -/
theorem Undergoes.get?_eq {events : List NoteEvent} {after : NoteStore} (undergoes : store.Undergoes events after)
    (filed : store.Filed) (id : String) :
    after.get? id = (NoteEvent.versions id (store.get? id).toList events).getLast? := by
  rw [get?, undergoes.notes]
  exact NoteEvent.find?_replay_versions filed.ascending undergoes.changes id

end NoteStore

namespace Watch

/-- What a client of a watch has after some events. -/
def view (watch : Watch) (events : List NoteEvent) : Entries Note :=
  NoteEvent.replay [] (watch.told events)

variable {store after : NoteStore} {events : List NoteEvent}

theorem view_on (filed : store.Filed) (tag : Option String) (events : List NoteEvent) :
    (on store tag).view events = NoteEvent.replay (store.tagged tag) (events.filter fun event => event.concerns tag) :=
  congrArg (fun notes => NoteEvent.replay notes _) (filed.apply_snapshot tag [])

/-- The client has the last version with the tag of every note. -/
theorem find?_view (filed : store.Filed) (changes : ∀ event ∈ events, event.IsChange) (tag : Option String)
    (id : String) :
    Entries.find? id ((on store tag).view events) =
      ((NoteEvent.versions id (store.get? id).toList events).filter (Note.matchesTag tag)).getLast? := by
  rw [view_on filed]
  have start : NoteEvent.LastTagged tag (fun id => (store.get? id).toList) (store.tagged tag) := by
    intro id
    rw [NoteStore.tagged, Entries.find?_filter _ filed.ascending]
    show (store.get? id).filter _ = ((store.get? id).toList.filter _).getLast?
    cases store.get? id with
    | none =>
        rfl
    | some note =>
        cases hasTag : note.matchesTag tag <;> simp [hasTag]
  exact NoteEvent.lastTagged_replay (filed.ascending_tagged tag) changes start id

/-- Entries that are filed under the ids of their notes are equal if the notes are. -/
theorem eq_of_map_snd {view notes : Entries Note} (idsView : ∀ entry ∈ view, entry.2.id = entry.1)
    (ids : ∀ entry ∈ notes, entry.2.id = entry.1) (same : view.map Prod.snd = notes.map Prod.snd) : view = notes := by
  rw [← NoteStore.map_id_of_ids idsView, same, NoteStore.map_id_of_ids ids]

theorem view_eq_iff (filed : store.Filed) (undergoes : store.Undergoes events after) (tag : Option String) :
    ((on store tag).view events).map Prod.snd = after.list tag ↔
      ∀ id note, after.get? id = some note → note.matchesTag tag = false →
        ∀ version ∈ NoteEvent.versions id (store.get? id).toList events, version.matchesTag tag = false := by
  have told : ∀ event ∈ events.filter fun event => event.concerns tag, event.IsChange :=
    fun event listed => undergoes.changes event (List.mem_filter.1 listed).1
  have ids := NoteEvent.ids_replay told (filed.ids_tagged tag)
  have ascending := NoteEvent.ascending_replay (filed.ascending_tagged tag) (events.filter fun event => event.concerns tag)
  rw [← view_on filed] at ids ascending
  have found (id : String) : Entries.find? id (after.tagged tag) = (after.get? id).filter (Note.matchesTag tag) :=
    Entries.find?_filter _ undergoes.filed.ascending id
  calc ((on store tag).view events).map Prod.snd = after.list tag
      ↔ (on store tag).view events = after.tagged tag := by
        rw [← NoteStore.map_tagged]
        exact ⟨eq_of_map_snd ids (undergoes.filed.ids_tagged tag), congrArg _⟩
    _ ↔ ∀ id, Entries.find? id ((on store tag).view events) = Entries.find? id (after.tagged tag) :=
        ⟨fun same id => by rw [same], Entries.ext ascending (undergoes.filed.ascending_tagged tag)⟩
    _ ↔ _ := by
        refine forall_congr' fun id => ?_
        rw [find?_view filed undergoes.changes, found, undergoes.get?_eq filed]
        exact getLast?_filter_eq_iff _ _

/-- A client has of every note the last version with the tag, so that it misses nothing of what the list of notes with the tag
has. It has nothing else exactly where no note that is left without the tag had it since it came to be there. -/
theorem tracks_iff (tag : Option String) (before later : List (Timestamp × NoteOperation)) :
    let store := (NoteStore.performAll {} before).2
    let events := (store.performAll later).1
    let after := (store.performAll later).2
    let watch := on store tag
    let versions (id : String) := NoteEvent.versions id (store.get? id).toList events
    (∀ values, watch.Pushes .entered events values ↔ values = (watch.told events).map NoteEvent.value) ∧
      (∀ id, after.get? id = (versions id).getLast?) ∧
      (∀ id, Entries.find? id (watch.view events) = ((versions id).filter (Note.matchesTag tag)).getLast?) ∧
      (∀ note ∈ after.list tag, note ∈ (watch.view events).map Prod.snd) ∧
      ((watch.view events).map Prod.snd = after.list tag ↔
        ∀ id note, after.get? id = some note → note.matchesTag tag = false →
          ∀ version ∈ versions id, version.matchesTag tag = false) := by
  intro store events after watch versions
  have filed : store.Filed := (NoteStore.undergoes NoteStore.filed_new before).filed
  have undergoes : store.Undergoes events after := NoteStore.undergoes filed later
  have found (id : String) := find?_view filed undergoes.changes tag id
  refine ⟨fun _ => pushes_entered_iff, undergoes.get?_eq filed, found, fun note listed => ?_, view_eq_iff filed undergoes tag⟩
  obtain ⟨stored, hasTag⟩ := List.mem_filter.1 listed
  obtain ⟨⟨id, _⟩, entry, rfl⟩ := List.mem_map.1 stored
  have last : (versions id).getLast? = some _ :=
    (undergoes.get?_eq filed id).symm.trans (Entries.find?_of_mem undergoes.filed.ascending entry)
  refine List.mem_map.2 ⟨_, Entries.mem_of_find? ((found id).trans ?_), rfl⟩
  exact getLast?_filter_of_last last hasTag

section Example

def milk : List (Timestamp × NoteOperation) :=
  [(default, .create ⟨"milk", none, []⟩)]

/-- A note gets a tag, and another one has it for as long as it is there. -/
def tagging : List (Timestamp × NoteOperation) :=
  [(default, .update { id := "n1", tags := some ["home"] }), (default, .create ⟨"bread", none, ["home"]⟩),
    (default, .update { id := "n1", title := some "oat milk" }), (default, .delete "n2")]

theorem tracks_iff_tagging :
    let store := (NoteStore.performAll {} milk).2
    let after := (store.performAll tagging).2
    (after.list (some "home")).map Note.title = ["oat milk"] ∧
      ((on store (some "home")).view (store.performAll tagging).1).map Prod.snd = after.list (some "home") := by
  intro store after
  have allTagged : ∀ entry ∈ after.notes, entry.2.matchesTag (some "home") = true := by decide
  refine ⟨by decide, (tracks_iff (some "home") milk tagging).2.2.2.2.2 fun id note found untagged => ?_⟩
  cases (allTagged _ (NoteStore.mem_of_get? found)).symm.trans untagged

/-- A note loses its tag. -/
def untagging : List (Timestamp × NoteOperation) :=
  [(default, .create ⟨"milk", none, ["home"]⟩), (default, .update { id := "n1", tags := some [] })]

/-- The client of a watch with the tag still has the note. -/
theorem untagged_kept :
    ¬ ∀ tag before later,
        ((on (NoteStore.performAll {} before).2 tag).view
            ((NoteStore.performAll {} before).2.performAll later).1).map Prod.snd =
          ((NoteStore.performAll {} before).2.performAll later).2.list tag := by
  intro tracks
  have same := congrArg List.length (tracks (some "home") [] untagging)
  exact absurd same (by decide)

end Example

end Watch

end SchemaRpc
