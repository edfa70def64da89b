import Mathlib.Data.List.Perm.Basic
import SchemaRpc.Notes.Watch
import SchemaRpc.Proofs.Notes.Events

/-!
# The change feed

Several callers change the notes while others watch them. A change is made in one step and its event is published in a
later one, and the steps of all callers and watchers come in any order (`Feed.run?`). `Feed.Sound` is the invariant of
these runs. Nothing keeps a publication from overtaking that of an earlier change, and a watcher ends up with the contents
of the store exactly when what it heard last about each note is what was done last to it (`Feed.replays_iff`).
-/

namespace SchemaRpc

/-- Someone who watches: the contents, once they have been looked at, and the events that were published since the
subscription and concern the watch. -/
structure Follower where
  tag : Option String
  contents : Option (List Note) := none
  received : List NoteEvent := []
  deriving DecidableEq

namespace Follower

def hear (event : NoteEvent) (w : Follower) : Follower :=
  if event.concerns w.tag then { w with received := w.received ++ [event] } else w

def look (store : NoteStore) (w : Follower) : Follower :=
  { w with contents := some (Watch.on store w.tag).notes }

/-- What a client has that starts from the contents and applies the events in order. -/
def view (contents : List Note) (w : Follower) : Entries Note :=
  NoteEvent.replay [] (.snapshot contents :: w.received)

end Follower

/-- The notes, their watchers, and the changes that are made, waiting to be published, and published. -/
structure Feed where
  store : NoteStore := {}
  /-- The events of all changes, in the order in which the changes were made. -/
  made : List NoteEvent := []
  /-- The events of callers who have made their change and have not published it yet. -/
  pending : List NoteEvent := []
  published : List NoteEvent := []
  followers : List Follower := []

/-- What can happen next. -/
inductive FeedTurn where
  /-- A caller changes the store, under its lock. One whose operation fails is done then. -/
  | change (now : Timestamp) (operation : NoteOperation)
  /-- A caller who has changed the store publishes the event and is done. -/
  | publish (index : Nat)
  | subscribe (tag : Option String)
  /-- A watcher looks at the contents, once after its subscription. -/
  | look (number : Nat)

namespace Feed

/-- A turn, unless it cannot be taken now. -/
def act? (feed : Feed) : FeedTurn → Option Feed
  | .change now operation =>
    let (event?, store) := feed.store.perform now operation
    some { feed with store, made := feed.made ++ event?.toList, pending := feed.pending ++ event?.toList }
  | .publish index =>
    feed.pending[index]?.map fun event =>
      { feed with
        pending := feed.pending.eraseIdx index
        published := feed.published ++ [event]
        followers := feed.followers.map (Follower.hear event) }
  | .subscribe tag => some { feed with followers := feed.followers ++ [{ tag }] }
  | .look number =>
    match feed.followers[number]? with
    | none => none
    | some w =>
      if w.contents.isSome then none
      else some { feed with followers := feed.followers.set number (w.look feed.store) }

/-- Turns one after another, unless one of them cannot be taken. -/
def run? (feed : Feed) : List FeedTurn → Option Feed
  | [] => some feed
  | turn :: turns => (feed.act? turn).bind fun next => next.run? turns

/-! ## The invariant -/

/-- What a watcher without tag knows: of a note about which nothing has been heard and nothing is waiting, the contents say
what the store says. -/
structure Informed (store : NoteStore) (pending published : List NoteEvent) (w : Follower) : Prop where
  received : w.received <:+ published
  contents : ∀ notes, w.contents = some notes → ∀ id,
    (∀ event ∈ w.received ++ pending, event.about? ≠ some id) →
      Entries.find? id ((NoteEvent.snapshot notes).apply []) = store.get? id

structure Sound (feed : Feed) : Prop where
  filed : feed.store.Filed
  /-- The store is what its changes have made of it. -/
  replayed : feed.store.notes = NoteEvent.replay [] feed.made
  changes : ∀ event ∈ feed.made, event.IsChange
  /-- Every change is published once or waits to be published. -/
  balanced : (feed.published ++ feed.pending).Perm feed.made
  followers : ∀ w ∈ feed.followers, w.tag = none → Informed feed.store feed.pending feed.published w

theorem sound_new : Sound {} where
  filed := NoteStore.filed_new
  replayed := rfl
  changes := List.forall_mem_nil _
  balanced := .refl _
  followers := List.forall_mem_nil _

variable {feed next : Feed}

theorem Sound.changes_pending (sound : feed.Sound) : ∀ event ∈ feed.pending, event.IsChange :=
  fun event waiting => sound.changes event (sound.balanced.subset (List.mem_append_right _ waiting))

theorem Sound.changes_published (sound : feed.Sound) : ∀ event ∈ feed.published, event.IsChange :=
  fun event told => sound.changes event (sound.balanced.subset (List.mem_append_left _ told))

/-! ## One turn -/

theorem sound_change (sound : feed.Sound) (now : Timestamp) (operation : NoteOperation) :
    Sound
      { feed with
        store := (feed.store.perform now operation).2
        made := feed.made ++ (feed.store.perform now operation).1.toList
        pending := feed.pending ++ (feed.store.perform now operation).1.toList } := by
  have performs := feed.store.performs sound.filed now operation
  generalize (feed.store.perform now operation).1 = event? at *
  generalize (feed.store.perform now operation).2 = store' at *
  constructor
  case filed =>
    exact performs.filed sound.filed
  case replayed =>
    rw [NoteEvent.replay_append, ← sound.replayed]
    exact performs.notes
  case changes =>
    exact List.forall_mem_append.2 ⟨sound.changes, performs.changes⟩
  case balanced =>
    rw [← List.append_assoc]
    exact sound.balanced.append_right _
  case followers =>
    intro w listed untagged
    obtain ⟨received, contents⟩ := sound.followers w listed untagged
    refine ⟨received, fun notes looked id quiet => ?_⟩
    rw [← List.append_assoc] at quiet
    obtain ⟨quietBefore, quietNow⟩ := List.forall_mem_append.1 quiet
    rw [contents notes looked id quietBefore]
    cases performs with
    | refused =>
        rfl
    | changed event _ isChange same =>
        have elsewhere : event.about? ≠ some id := quietNow event (List.mem_singleton_self event)
        rw [NoteStore.get?, NoteStore.get?, same, NoteEvent.find?_apply sound.filed.ascending isChange, if_neg elsewhere]

theorem hear_of_untagged {event : NoteEvent} (isChange : event.IsChange) {w : Follower} (untagged : w.tag = none) :
    w.hear event = { w with received := w.received ++ [event] } := by
  rw [Follower.hear, untagged, NoteEvent.concerns_none isChange, if_pos rfl]

theorem tag_hear (event : NoteEvent) (w : Follower) : (w.hear event).tag = w.tag := by
  unfold Follower.hear
  split <;> rfl

theorem sound_publish (sound : feed.Sound) {index : Nat} {event : NoteEvent}
    (waiting : feed.pending[index]? = some event) :
    Sound
      { feed with
        pending := feed.pending.eraseIdx index
        published := feed.published ++ [event]
        followers := feed.followers.map (Follower.hear event) } := by
  obtain ⟨inside, rfl⟩ := List.getElem?_eq_some_iff.1 waiting
  have taken : (feed.pending[index] :: feed.pending.eraseIdx index).Perm feed.pending :=
    List.getElem_cons_eraseIdx_perm inside
  have isChange := sound.changes_pending _ (List.getElem_mem inside)
  constructor
  case filed =>
    exact sound.filed
  case replayed =>
    exact sound.replayed
  case changes =>
    exact sound.changes
  case balanced =>
    rw [List.append_assoc]
    exact (taken.append_left _).trans sound.balanced
  case followers =>
    intro w present untagged
    obtain ⟨before, listed, rfl⟩ := List.mem_map.1 present
    rw [tag_hear] at untagged
    obtain ⟨⟨earlier, received⟩, contents⟩ := sound.followers before listed untagged
    rw [hear_of_untagged isChange untagged]
    refine ⟨⟨earlier, by rw [← List.append_assoc, received]⟩, fun notes looked id quiet => ?_⟩
    -- the same events are heard or waiting as before
    have moved : (before.received ++ [feed.pending[index]] ++ feed.pending.eraseIdx index).Perm
        (before.received ++ feed.pending) := by
      rw [List.append_assoc]
      exact taken.append_left _
    exact contents notes looked id fun event member => quiet event (moved.mem_iff.2 member)

theorem sound_subscribe (sound : feed.Sound) (tag : Option String) :
    Sound { feed with followers := feed.followers ++ [{ tag }] } where
  filed := sound.filed
  replayed := sound.replayed
  changes := sound.changes
  balanced := sound.balanced
  followers := by
    refine List.forall_mem_append.2 ⟨sound.followers, List.forall_mem_singleton.2 fun _ => ⟨?_, ?_⟩⟩
    · exact List.nil_suffix
    · exact nofun

theorem sound_look (sound : feed.Sound) {number : Nat} {w : Follower} (listed : feed.followers[number]? = some w) :
    Sound { feed with followers := feed.followers.set number (w.look feed.store) } where
  filed := sound.filed
  replayed := sound.replayed
  changes := sound.changes
  balanced := sound.balanced
  followers := by
    intro other member untagged
    rcases List.mem_or_eq_of_mem_set member with member | rfl
    · exact sound.followers other member untagged
    · have informed := sound.followers w (List.mem_of_getElem? listed) untagged
      refine ⟨informed.received, fun notes looked id _ => ?_⟩
      replace untagged : w.tag = none := untagged
      have whole : notes = feed.store.list none := by
        rw [← untagged]
        exact (Option.some.inj looked).symm
      rw [whole, sound.filed.apply_snapshot, NoteStore.tagged_none, NoteStore.get?]

theorem Sound.act (sound : feed.Sound) {turn : FeedTurn} (taken : feed.act? turn = some next) : next.Sound := by
  cases turn with
  | change now operation =>
      cases taken
      exact sound_change sound now operation
  | publish index =>
      obtain ⟨event, waiting, rfl⟩ := Option.map_eq_some_iff.1 taken
      exact sound_publish sound waiting
  | subscribe tag =>
      cases taken
      exact sound_subscribe sound tag
  | look number =>
      unfold act? at taken
      dsimp only at taken
      split at taken
      · cases taken
      · next w listed =>
        split at taken
        · cases taken
        · cases taken
          exact sound_look sound listed

/-! ## All turns -/

theorem Sound.run (sound : feed.Sound) {turns : List FeedTurn} (ran : feed.run? turns = some next) : next.Sound := by
  induction turns generalizing feed with
  | nil =>
      cases ran
      exact sound
  | cons turn rest inductionHypothesis =>
      obtain ⟨between, taken, ran⟩ := Option.bind_eq_some_iff.1 ran
      exact inductionHypothesis (sound.act taken) ran

/-- What the store has of a note is what the last change of it has left. -/
theorem Sound.get? (sound : feed.Sound) (id : String) :
    feed.store.get? id = (NoteEvent.lastAbout? id feed.made).bind NoteEvent.left? := by
  rw [NoteStore.get?, sound.replayed, NoteEvent.find?_replay .nil sound.changes]
  cases NoteEvent.lastAbout? id feed.made <;> rfl

/-- At rest a watcher has of a note what it heard last about it, and what the store has if it heard nothing. -/
theorem Sound.find?_view (sound : feed.Sound) (atRest : feed.pending = []) {w : Follower} (listed : w ∈ feed.followers)
    (untagged : w.tag = none) {notes : List Note} (looked : w.contents = some notes) (id : String) :
    Entries.find? id (w.view notes) =
      match NoteEvent.lastAbout? id w.received with
      | some event => event.left?
      | none => feed.store.get? id := by
  obtain ⟨received, contents⟩ := sound.followers w listed untagged
  have changes : ∀ event ∈ w.received, event.IsChange :=
    fun event heard => sound.changes_published event (received.subset heard)
  have ascending := NoteEvent.ascending_apply .nil (.snapshot notes)
  show Entries.find? id (NoteEvent.replay ((NoteEvent.snapshot notes).apply []) w.received) = _
  rw [NoteEvent.find?_replay ascending changes]
  cases last : NoteEvent.lastAbout? id w.received with
  | some event =>
      rfl
  | none =>
      refine contents notes looked id ?_
      rw [atRest, List.append_nil]
      exact NoteEvent.lastAbout?_eq_none_iff.1 last

/-- When all calls have completed, a watcher without tag has the contents of the store exactly when the last that it heard
about each note leaves the note as its last change did. It has them if the changes of every note were published in the
order in which they were made. -/
theorem replays_iff {turns : List FeedTurn} (ran : ({} : Feed).run? turns = some feed) (atRest : feed.pending = [])
    {w : Follower} (listed : w ∈ feed.followers) (untagged : w.tag = none) {notes : List Note}
    (looked : w.contents = some notes) :
    (w.view notes = feed.store.notes ↔
        ∀ id event, NoteEvent.lastAbout? id w.received = some event →
          (NoteEvent.lastAbout? id feed.made).bind NoteEvent.left? = event.left?) ∧
      ((∀ id, NoteEvent.concerning id feed.published = NoteEvent.concerning id feed.made) →
        w.view notes = feed.store.notes) := by
  have sound := sound_new.run ran
  have found := sound.find?_view atRest listed untagged looked
  have exact : w.view notes = feed.store.notes ↔
      ∀ id event, NoteEvent.lastAbout? id w.received = some event →
        (NoteEvent.lastAbout? id feed.made).bind NoteEvent.left? = event.left? := by
    constructor
    · intro same id event last
      have here := found id
      rw [same, last] at here
      exact (sound.get? id).symm.trans here
    · intro agree
      refine Entries.ext (NoteEvent.ascending_replay .nil _) sound.filed.ascending fun id => (found id).trans ?_
      cases last : NoteEvent.lastAbout? id w.received with
      | some event =>
          exact ((sound.get? id).trans (agree id event last)).symm
      | none =>
          rfl
  refine ⟨exact, fun inOrder => exact.2 fun id event last => ?_⟩
  have lastPublished := NoteEvent.lastAbout?_of_suffix (sound.followers w listed untagged).received last
  rw [NoteEvent.lastAbout?, inOrder id] at lastPublished
  rw [NoteEvent.lastAbout?, lastPublished]
  rfl

section Schedules

def draft (title : String) : NoteDraft :=
  ⟨title, none, []⟩

def retitling (title : String) : NoteOperation :=
  .update { id := "n1", title := some title }

/-- A watcher subscribes while the creation of the first note is not published yet, and looks while an update of it is not
either. That update is published after the creation of the second note, which was made later. -/
def overlapping : List FeedTurn :=
  [.change default (.create (draft "first")), .subscribe none, .change default (retitling "again"), .look 0, .publish 0,
    .change default (.create (draft "second")), .publish 1, .publish 0, .change default (.delete "n2"), .publish 0]

def overlapped : Feed :=
  (({} : Feed).run? overlapping).getD {}

theorem overlapped_in_order (id : String) :
    NoteEvent.concerning id overlapped.published = NoteEvent.concerning id overlapped.made := by
  by_cases isKnown : id ∈ ["n1", "n2"]
  · rcases List.mem_pair.1 isKnown with rfl | rfl <;> decide
  · have published : ∀ event ∈ overlapped.published, event.about? ∈ ["n1", "n2"].map some := by decide
    have made : ∀ event ∈ overlapped.made, event.about? ∈ ["n1", "n2"].map some := by decide
    rw [NoteEvent.concerning_eq_nil published isKnown, NoteEvent.concerning_eq_nil made isKnown]

theorem replays_iff_overlapping :
    ({} : Feed).run? overlapping = some overlapped ∧ overlapped.pending = [] ∧ overlapped.published ≠ overlapped.made ∧
      ∃ w ∈ overlapped.followers, w.tag = none ∧ ∃ notes, w.contents = some notes ∧
        w.view notes = overlapped.store.notes := by
  have ran : ({} : Feed).run? overlapping = some overlapped := rfl
  have atRest : overlapped.pending = [] := rfl
  refine ⟨ran, atRest, by decide, _, List.mem_singleton_self _, rfl, _, rfl, ?_⟩
  exact (replays_iff ran atRest (List.mem_singleton_self _) rfl rfl).2 overlapped_in_order

/-- Two updates of one note, of which the later is published first. -/
def overtaking : List FeedTurn :=
  [.subscribe none, .look 0, .change default (.create (draft "note")), .publish 0, .change default (retitling "earlier"),
    .change default (retitling "later"), .publish 1, .publish 0]

/-- The watcher of a note whose updates are published in the wrong order is left with the earlier one. -/
theorem overtaken_not_replayed :
    ¬ ∀ turns feed, ({} : Feed).run? turns = some feed → feed.pending = [] →
        ∀ w ∈ feed.followers, w.tag = none → ∀ notes, w.contents = some notes → w.view notes = feed.store.notes := by
  intro replays
  have same := replays overtaking _ rfl rfl _ (List.mem_singleton_self _) rfl _ rfl
  have titles : (some "earlier" : Option String) = some "later" :=
    congrArg (fun notes => (Entries.find? "n1" notes).map Note.title) same
  exact absurd titles (by decide)

end Schedules

end Feed

end SchemaRpc
