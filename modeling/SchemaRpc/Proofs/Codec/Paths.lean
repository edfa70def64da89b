import Mathlib.Data.List.DropRight
import Mathlib.Data.List.Induction
import SchemaRpc.Proofs.Codec.Recased

/-!
# Paths from both ends

A path is extended at its end on the way in and at its front on the way out, and each way an empty segment is lost where it
meets the root: on the way in those before the first text, on the way out those after the last. The two ways therefore
agree exactly where they lose the same (`CodecError.path?_foldr_under_iff`), in particular where no segment at either end is
empty.
-/

namespace SchemaRpc

/-- A slash before each segment. -/
def slashed (segments : List String) : List Char :=
  segments.flatMap fun segment => '/' :: segment.toList

/-- As many segments at the start are empty as at the end, and none are unless there is no text but slashes. -/
def PathsAgree (segments : List String) : Prop :=
  (segments.takeWhile (· == "")).length = (segments.rtakeWhile (· == "")).length ∧
    ((segments.takeWhile (· == "")).length = 0 ∨ ∀ segment ∈ segments, ∀ c ∈ segment.toList, c = '/')

instance (segments : List String) : Decidable (PathsAgree segments) :=
  inferInstanceAs (Decidable (_ ∧ _))

section Texts

variable {segments : List String} {path : String}

theorem slashed_append (front rest : List String) : slashed (front ++ rest) = slashed front ++ slashed rest :=
  List.flatMap_append

theorem slashed_of_empty (empty : ∀ segment ∈ segments, segment = "") :
    slashed segments = List.replicate segments.length '/' := by
  induction segments with
  | nil =>
      rfl
  | cons segment rest inductionHypothesis =>
      obtain ⟨rfl, later⟩ := List.forall_mem_cons.mp empty
      exact congrArg ('/' :: ·) (inductionHypothesis later)

theorem childPath_root (key : String) : childPath rootPath key = "/" ++ key :=
  rfl

theorem pathUnder_root (segment : String) : pathUnder segment rootPath = "/" ++ segment :=
  rfl

/-- Only the root is as short as a slash. -/
theorem ne_root_of_length (long : 1 < path.toList.length) : (path == rootPath) = false := by
  refine beq_false_of_ne ?_
  rintro rfl
  exact absurd long (by decide)

theorem toList_foldl_childPath (long : 1 < path.toList.length) :
    (segments.foldl childPath path).toList = path.toList ++ slashed segments := by
  induction segments generalizing path with
  | nil =>
      simp [slashed]
  | cons key rest inductionHypothesis =>
      have step : childPath path key = path ++ "/" ++ key := by
        rw [childPath, ne_root_of_length long]
        rfl
      rw [List.foldl_cons, inductionHypothesis (by rw [step]; simp; omega), step]
      simp [slashed]

theorem toList_foldr_pathUnder (long : 1 < path.toList.length) :
    (segments.foldr pathUnder path).toList = slashed segments ++ path.toList := by
  induction segments with
  | nil =>
      rfl
  | cons segment rest inductionHypothesis =>
      have longer : 1 < (rest.foldr pathUnder path).toList.length := by
        rw [inductionHypothesis, List.length_append]
        omega
      rw [List.foldr_cons, pathUnder, ne_root_of_length longer]
      simp [inductionHypothesis, slashed]

theorem foldl_childPath_of_empty (empty : ∀ segment ∈ segments, segment = "") :
    segments.foldl childPath rootPath = rootPath := by
  induction segments with
  | nil =>
      rfl
  | cons segment rest inductionHypothesis =>
      obtain ⟨rfl, later⟩ := List.forall_mem_cons.mp empty
      exact inductionHypothesis later

theorem foldr_pathUnder_of_empty (empty : ∀ segment ∈ segments, segment = "") :
    segments.foldr pathUnder rootPath = rootPath := by
  induction segments with
  | nil =>
      rfl
  | cons segment rest inductionHypothesis =>
      obtain ⟨rfl, later⟩ := List.forall_mem_cons.mp empty
      rw [List.foldr_cons, inductionHypothesis later]
      rfl

theorem one_lt_length_of_ne_empty {segment : String} (filled : segment ≠ "") :
    1 < ("/" ++ segment).toList.length := by
  have some : 0 < segment.toList.length := List.length_pos_iff.mpr fun empty => filled (String.toList_eq_nil_iff.mp empty)
  simp
  omega

theorem eq_empty_of_mem_takeWhile : ∀ segment ∈ segments.takeWhile (· == ""), segment = "" := fun _ member =>
  beq_iff_eq.mp (List.mem_takeWhile_imp (p := (· == "")) member)

theorem eq_empty_of_mem_rtakeWhile : ∀ segment ∈ segments.rtakeWhile (· == ""), segment = "" := fun _ member =>
  beq_iff_eq.mp (List.mem_rtakeWhile_imp (p := (· == "")) member)

/-- On the way in the empty segments at the start are lost. -/
theorem toList_foldl_childPath_root (text : ∃ segment ∈ segments, segment ≠ "") :
    (segments.foldl childPath rootPath).toList = slashed (segments.dropWhile (· == "")) := by
  cases kept : segments.dropWhile (· == "") with
  | nil =>
      obtain ⟨segment, member, filled⟩ := text
      exact absurd (beq_iff_eq.mp (List.dropWhile_eq_nil_iff.mp kept segment member)) filled
  | cons first rest =>
      have filled : first ≠ "" := by
        have head := List.head?_dropWhile_not (· == "") segments
        rw [kept] at head
        simpa using head
      rw [← List.takeWhile_append_dropWhile (p := (· == "")) (l := segments), kept, List.foldl_append,
        foldl_childPath_of_empty eq_empty_of_mem_takeWhile, List.foldl_cons, childPath_root,
        toList_foldl_childPath (one_lt_length_of_ne_empty filled)]
      simp [slashed]

/-- On the way out the empty segments at the end are lost. -/
theorem toList_foldr_pathUnder_root (text : ∃ segment ∈ segments, segment ≠ "") :
    (segments.foldr pathUnder rootPath).toList = slashed (segments.rdropWhile (· == "")) := by
  have parts := List.rdropWhile_append_rtakeWhile (p := (· == "")) (l := segments)
  cases kept : segments.reverse.dropWhile (· == "") with
  | nil =>
      obtain ⟨segment, member, filled⟩ := text
      exact absurd (beq_iff_eq.mp (List.dropWhile_eq_nil_iff.mp kept segment (List.mem_reverse.mpr member))) filled
  | cons last front =>
      have filled : last ≠ "" := by
        have head := List.head?_dropWhile_not (· == "") segments.reverse
        rw [kept] at head
        simpa using head
      have split : segments.rdropWhile (· == "") = front.reverse ++ [last] := by
        rw [List.rdropWhile, kept, List.reverse_cons]
      rw [split] at parts ⊢
      rw [← parts, List.foldr_append, foldr_pathUnder_of_empty eq_empty_of_mem_rtakeWhile, List.foldr_append,
        List.foldr_cons, List.foldr_nil, pathUnder_root, toList_foldr_pathUnder (one_lt_length_of_ne_empty filled),
        slashed_append]
      simp [slashed]

/-! ## Where the two ways agree -/

/-- A text that slashes stand before as well as after holds nothing else. -/
theorem replicate_append_comm_iff {n : Nat} {text : List Char} :
    List.replicate n '/' ++ text = text ++ List.replicate n '/' ↔ n = 0 ∨ ∀ c ∈ text, c = '/' := by
  cases n with
  | zero =>
      simp
  | succ n =>
      rw [or_iff_right (Nat.succ_ne_zero n)]
      induction text with
      | nil =>
          simp
      | cons c text inductionHypothesis =>
          have shift : List.replicate n '/' ++ '/' :: text = List.replicate (n + 1) '/' ++ text := by
            rw [List.replicate_succ', List.append_assoc, List.singleton_append]
          rw [List.forall_mem_cons, ← inductionHypothesis, ← shift]
          constructor
          · intro same
            obtain ⟨rfl, same⟩ := List.cons.inj same
            exact ⟨rfl, same⟩
          · rintro ⟨rfl, same⟩
            exact congrArg ('/' :: ·) same

/-- What is left of a text without the slashes before it, and without those after it. -/
theorem eq_iff_of_surrounded {whole inward outward : List Char} {before after : Nat}
    (first : whole = List.replicate before '/' ++ inward) (last : whole = outward ++ List.replicate after '/') :
    outward = inward ↔ before = after ∧ (before = 0 ∨ ∀ c ∈ whole, c = '/') := by
  have sameLength : before + inward.length = outward.length + after := by
    have both := congrArg List.length (first.symm.trans last)
    simpa using both
  constructor
  · rintro rfl
    obtain rfl : before = after := by omega
    refine ⟨rfl, (replicate_append_comm_iff.mp (first.symm.trans last)).imp_right fun slashes => ?_⟩
    rw [last, List.forall_mem_append]
    exact ⟨slashes, fun c member => List.eq_of_mem_replicate member⟩
  · rintro ⟨rfl, none | slashes⟩
    · subst none
      simpa using last.symm.trans first
    · have inwardSlashes : ∀ c ∈ inward, c = '/' := fun c member =>
        slashes c (by rw [first]; exact List.mem_append_right _ member)
      have outwardSlashes : ∀ c ∈ outward, c = '/' := fun c member =>
        slashes c (by rw [last]; exact List.mem_append_left _ member)
      rw [List.eq_replicate_of_mem inwardSlashes, List.eq_replicate_of_mem outwardSlashes]
      exact congrArg (List.replicate · '/') (by omega)

theorem forall_mem_slashed :
    (∀ c ∈ slashed segments, c = '/') ↔ ∀ segment ∈ segments, ∀ c ∈ segment.toList, c = '/' := by
  induction segments with
  | nil =>
      simp [slashed]
  | cons segment rest inductionHypothesis =>
      have parts : slashed (segment :: rest) = '/' :: segment.toList ++ slashed rest := rfl
      rw [parts, List.forall_mem_append, List.forall_mem_cons, List.forall_mem_cons, inductionHypothesis, eq_self, true_and]

theorem foldr_pathUnder_eq_iff :
    segments.foldr pathUnder rootPath = segments.foldl childPath rootPath ↔ PathsAgree segments := by
  by_cases text : ∃ segment ∈ segments, segment ≠ ""
  · have first := slashed_append (segments.takeWhile (· == "")) (segments.dropWhile (· == ""))
    have last := slashed_append (segments.rdropWhile (· == "")) (segments.rtakeWhile (· == ""))
    rw [List.takeWhile_append_dropWhile, slashed_of_empty eq_empty_of_mem_takeWhile] at first
    rw [List.rdropWhile_append_rtakeWhile, slashed_of_empty eq_empty_of_mem_rtakeWhile] at last
    rw [← String.toList_inj, toList_foldl_childPath_root text, toList_foldr_pathUnder_root text, PathsAgree,
      ← forall_mem_slashed]
    exact eq_iff_of_surrounded first last
  · have empty : ∀ segment ∈ segments, segment = "" := by
      simpa using text
    have agree : PathsAgree segments := by
      have before : segments.takeWhile (· == "") = segments := List.takeWhile_eq_self_iff.mpr (by simpa using empty)
      have after : segments.rtakeWhile (· == "") = segments := List.rtakeWhile_eq_self_iff.mpr (by simpa using empty)
      refine ⟨by rw [before, after], .inr fun segment member c inside => ?_⟩
      rw [empty segment member] at inside
      cases inside
    exact iff_of_true ((foldr_pathUnder_of_empty empty).trans (foldl_childPath_of_empty empty).symm) agree

end Texts

namespace CodecError

variable {segment path : String} {error : CodecError}

/-- The complaint about another place. -/
def placed (path : String) : CodecError → CodecError
  | missingField _ => missingField path
  | nullNotAllowed _ => nullNotAllowed path
  | typeMismatch _ expected actual => typeMismatch path expected actual
  | depthExceeded _ max => depthExceeded path max
  | unknownTag _ tag => unknownTag path tag
  | unknownEnumValue _ value => unknownEnumValue path value
  | unresolvedRef name => unresolvedRef name
  | invalidJson => invalidJson
  | invalidValue _ text => invalidValue path text

theorem unplaced_placed : (error.placed path).unplaced = error.unplaced := by
  cases error <;> rfl

theorem path?_placed (located : error.path? = some path) {other : String} :
    (error.placed other).path? = some other := by
  cases error with
  | unresolvedRef | invalidJson => cases located
  | _ => rfl

theorem placed_self (located : error.path? = some path) : error.placed path = error := by
  cases error with
  | unresolvedRef | invalidJson => cases located
  | _ => cases located; rfl

theorem placed_placed {other : String} : (error.placed path).placed other = error.placed other := by
  cases error <;> rfl

theorem under_eq_placed (located : error.path? = some path) :
    error.under segment = error.placed (pathUnder segment path) := by
  cases error with
  | unresolvedRef | invalidJson => cases located
  | _ => cases located; rfl

theorem foldr_under_eq_placed (located : error.path? = some path) (segments : List String) :
    segments.foldr under error = error.placed (segments.foldr pathUnder path) := by
  induction segments with
  | nil =>
      exact (placed_self located).symm
  | cons segment rest inductionHypothesis =>
      rw [List.foldr_cons, inductionHypothesis, under_eq_placed (path?_placed located), placed_placed, List.foldr_cons]

/-- Wrapping a complaint about the root in segments, the innermost first, changes nothing but its path, and that becomes the
path of the same segments gone down from the root exactly where the two ways lose the same. -/
theorem path?_foldr_under_iff (segments : List String) (atRoot : error.path? = some rootPath) :
    (segments.foldr under error).kind = error.kind ∧
      (segments.foldr under error).unplaced = error.unplaced ∧
      ((segments.foldr under error).path? = some (segments.foldl childPath rootPath) ↔ PathsAgree segments) := by
  have moved : segments.foldr under error = error.placed (segments.foldr pathUnder rootPath) :=
    foldr_under_eq_placed atRoot segments
  have same : (segments.foldr under error).unplaced = error.unplaced := by
    rw [moved, unplaced_placed]
  refine ⟨?_, same, ?_⟩
  · rw [← kind_unplaced, same, kind_unplaced]
  · rw [moved, path?_placed atRoot, Option.some_inj, foldr_pathUnder_eq_iff]

theorem path?_foldr_under_iff_users :
    (nullNotAllowed rootPath).path? = some rootPath ∧ PathsAgree ["users", "", "0"] ∧
      (["users", "", "0"].foldr under (nullNotAllowed rootPath)).path? =
        some (["users", "", "0"].foldl childPath rootPath) :=
  ⟨rfl, by decide, (path?_foldr_under_iff ["users", "", "0"] rfl).2.2.mpr (by decide)⟩

/-- Below an empty key the way in names the place `/a` and the way out `//a`. -/
theorem empty_key_not_agreed :
    ¬∀ (segments : List String) (error : CodecError), error.path? = some rootPath →
      (segments.foldr under error).kind = error.kind ∧
        (segments.foldr under error).unplaced = error.unplaced ∧
        (segments.foldr under error).path? = some (segments.foldl childPath rootPath) := by
  intro agree
  obtain ⟨-, -, same⟩ := agree ["", "a"] (nullNotAllowed rootPath) rfl
  exact absurd same (by decide)

end CodecError

end SchemaRpc
