import SchemaRpc.Json.Selection
import SchemaRpc.Proofs.Json.Reread

/-!
# Members chosen from written objects

Of an object whose keys are all asked for, and each there once, choosing reads the members as reading the whole object does,
and it stops at the same nesting (`Json.select?_compress`). Reading changes nothing but numbers
(`Json.reread_eq_self_iff`).
-/

namespace SchemaRpc.Json

section Choosing

variable {chosen : List String} {members others done : Members} {key : String} {value : Json} {rest : List Char}

/-- What follows the value of a member in the text of its object. -/
def afterMember (others : Members) (rest : List Char) : List Char :=
  match others with
  | [] => '\x7d' :: rest
  | _ :: _ => ',' :: (writeMembers others ++ '\x7d' :: rest)

theorem follows_afterMember (others : Members) (rest : List Char) : Follows (afterMember others rest) := by
  cases others with
  | nil => exact .inr (.inr rfl)
  | cons => exact .inl rfl

theorem writeMembers_cons (key : String) (value : Json) (others : Members) (rest : List Char) :
    writeMembers ((key, value) :: others) ++ '\x7d' :: rest =
      writeString key ++ ':' :: (value.write ++ afterMember others rest) := by
  cases others <;> simp [writeMembers, afterMember]

theorem selectMember?_write (listed : key ∈ chosen) (free : done.get? key = none)
    (read : ReadWithin (maxNesting - 1) value) (others : Members) (rest : List Char) :
    selectMember? chosen done key (value.write ++ afterMember others rest) =
      if value.depth ≤ maxNesting - 1 then some (done ++ [(key, value.reread)], afterMember others rest) else none := by
  rw [selectMember?, List.contains_iff_mem.mpr listed, free, read _ (follows_afterMember others rest)]
  by_cases shallow : value.depth ≤ maxNesting - 1 <;> simp [shallow]

theorem selectMembers?_writeMembers (listed : ∀ key ∈ members.map Prod.fst, key ∈ chosen)
    (apart : (done.map Prod.fst ++ members.map Prod.fst).Nodup)
    (each : ∀ part ∈ members.map Prod.snd, ReadWithin (maxNesting - 1) part) (nonempty : members ≠ []) {fuel : Nat}
    (enough : members.length ≤ fuel) (rest : List Char) :
    selectMembers? chosen fuel done (writeMembers members ++ '\x7d' :: rest) =
      if depthOfMembers members ≤ maxNesting - 1 then some (done ++ rereadMembers members, rest) else none := by
  induction members generalizing fuel done with
  | nil =>
      exact absurd rfl nonempty
  | cons member others inductionHypothesis =>
      obtain ⟨key, value⟩ := member
      obtain ⟨fuel, rfl⟩ : ∃ less, fuel = less + 1 := ⟨fuel - 1, by rw [List.length_cons] at enough; omega⟩
      obtain ⟨listedHere, listedLater⟩ := List.forall_mem_cons.mp listed
      obtain ⟨readsHere, readsLater⟩ := List.forall_mem_cons.mp each
      have moved : ((done ++ [(key, value.reread)]).map Prod.fst ++ others.map Prod.fst).Nodup := by
        simpa using apart
      have free : done.get? key = none := lookup_eq_none_of_not_mem fun there =>
        (List.nodup_append.mp apart).2.2 key there key List.mem_cons_self rfl
      have step := selectMember?_write listedHere free readsHere others rest
      have quote (s : List Char) : skipBlank ('"' :: s) = '"' :: s := skipBlank_cons rfl
      have colon (s : List Char) : skipBlank (':' :: s) = ':' :: s := skipBlank_cons rfl
      obtain ⟨text, readKey⟩ := readString?_writeString key (':' :: (value.write ++ afterMember others rest))
      rw [writeMembers_cons, text, depthOfMembers, rereadMembers]
      simp only [selectMembers?, quote, readKey, colon, step]
      by_cases shallow : value.depth ≤ maxNesting - 1
      · cases others with
        | nil =>
            have close : skipBlank ('\x7d' :: rest) = '\x7d' :: rest := skipBlank_cons rfl
            simp [shallow, afterMember, close, depthOfMembers, rereadMembers]
        | cons next others =>
            have comma : skipBlank (',' :: (writeMembers (next :: others) ++ '\x7d' :: rest)) =
                ',' :: (writeMembers (next :: others) ++ '\x7d' :: rest) := skipBlank_cons rfl
            have later := inductionHypothesis listedLater moved readsLater (List.cons_ne_nil _ _)
              (Nat.le_of_succ_le_succ enough)
            simp [shallow, afterMember, comma, later]
      · simp [shallow]

theorem select?_members {s : String} {t : List Char} (text : s.toList = '\x7b' :: '"' :: t) :
    select? chosen s = (selectMembers? chosen (t.length + 1) [] ('"' :: t)).bind fun read =>
      if (skipBlank read.2).isEmpty then some read.1 else none := by
  have opened : skipBlank ('\x7b' :: '"' :: t) = '\x7b' :: '"' :: t := skipBlank_cons rfl
  have quote : skipBlank ('"' :: t) = '"' :: t := skipBlank_cons rfl
  unfold select?
  rw [text, opened]
  generalize found : selectMembers? chosen (t.length + 1) [] ('"' :: t) = result
  cases result <;> simp [quote, found]

/-- An object whose keys are all asked for is read as a whole. -/
theorem select?_compress (listed : ∀ key ∈ members.map Prod.fst, key ∈ chosen)
    (kept : (obj members).Everywhere KeepsNumber) (apart : (members.map Prod.fst).Nodup) :
    select? chosen (obj members).compress =
      if (obj members).depth ≤ maxNesting then some (rereadMembers members) else none := by
  have text : (obj members).compress.toList = '\x7b' :: (writeMembers members ++ ['\x7d']) := by
    simp [compress, write]
  cases members with
  | nil =>
      rw [depth, depthOfMembers, if_pos (by decide)]
      rfl
  | cons member others =>
      have each : ∀ part ∈ (member :: others).map Prod.snd, ReadWithin (maxNesting - 1) part := fun part held =>
        readWithin (kept.parts part held) _
      have enough : (member :: others).length ≤ (writeMembers (member :: others) ++ ['\x7d']).length := by
        rw [List.length_append]
        exact Nat.le_trans (length_le_writeMembers _) (Nat.le_add_right _ _)
      have start : (([] : Members).map Prod.fst ++ (member :: others).map Prod.fst).Nodup := apart
      have read := selectMembers?_writeMembers listed start each (List.cons_ne_nil _ _) enough []
      have inner : (obj (member :: others)).depth ≤ maxNesting ↔ depthOfMembers (member :: others) ≤ maxNesting - 1 := by
        rw [depth, maxNesting]
        omega
      obtain ⟨t, starts⟩ : ∃ t, writeMembers (member :: others) ++ ['\x7d'] = '"' :: t := by
        cases others with
        | nil => exact ⟨_, by rw [writeMembers, writeString]; rfl⟩
        | cons next others => exact ⟨_, by simp only [writeMembers, writeString]; rfl⟩
      rw [starts] at read text
      rw [List.length_cons] at read
      rw [select?_members text, read]
      by_cases shallow : depthOfMembers (member :: others) ≤ maxNesting - 1
      · rw [if_pos shallow, if_pos (inner.mpr shallow)]
        rfl
      · rw [if_neg shallow, if_neg (mt inner.mp shallow)]
        rfl

end Choosing

/-! ## What reading leaves as it is -/

/-- The reader gets a number back from its text. -/
def RereadsNumber : Json → Prop
  | num n => rereadNumber n = n
  | _ => True

/-- Reading what is written changes nothing but numbers. -/
theorem reread_eq_self_iff {json : Json} (stored : json.Everywhere Stored) :
    json.reread = json ↔ json.Everywhere RereadsNumber := by
  induction json using induct with
  | step json inductionHypothesis =>
    have parts : (∀ part ∈ json.parts, part.reread = part) ↔ ∀ part ∈ json.parts, part.Everywhere RereadsNumber :=
      forall₂_congr fun part held => inductionHypothesis part held (stored.parts part held)
    have whole : json.Everywhere RereadsNumber ↔ json.RereadsNumber ∧ ∀ part ∈ json.parts, part.reread = part :=
      ⟨fun everywhere => ⟨everywhere.here, parts.mpr everywhere.parts⟩, fun both => .intro both.1 (parts.mp both.2)⟩
    rw [whole]
    cases json with
    | arr items =>
        rw [reread, arr.injEq, rereadItems_eq_map]
        have same : items.map reread = items ↔ ∀ item ∈ items, item.reread = item := by
          rw [← List.map_inj_left (g := fun item => item), List.map_id']
        rw [same]
        exact (and_iff_right trivial).symm
    | obj members =>
        have distinct : ((rereadMembers members).map Prod.fst).Nodup := by
          rw [rereadMembers_eq_map, List.map_map]
          exact stored.here
        have same : members.map (fun member => (member.1, member.2.reread)) = members ↔
            ∀ part ∈ members.map Prod.snd, part.reread = part := by
          have pair (member : String × Json) : (member.1, member.2.reread) = member ↔ member.2.reread = member.2 := by
            simp [Prod.ext_iff]
          rw [List.forall_mem_map, ← forall₂_congr fun member _ => pair member,
            ← List.map_inj_left (g := fun member => member), List.map_id']
        rw [reread, obj.injEq, Members.ofPairs_of_nodup distinct, rereadMembers_eq_map, same]
        exact (and_iff_right trivial).symm
    | num n =>
        simp [reread, RereadsNumber, Json.parts]
    | null | bool | str =>
        simp [reread, RereadsNumber, Json.parts]

end SchemaRpc.Json
