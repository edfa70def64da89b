import SchemaRpc.Json.Parser
import SchemaRpc.Proofs.Json.Numbers
import SchemaRpc.Proofs.Json.Written

/-!
# Written JSON is read again

The compact text of a value that nests no deeper than the reader goes is read, and that of a deeper one is refused
(`Json.parse?_compress`). `Json.reread` is what is read: the value itself, but that a double may be read as another one,
and that of a repeated key the last value is kept.
-/

namespace SchemaRpc.Json

/-! ## Strings -/

section Strings

variable {c x : Char} {a b d : Char} {n : Nat}

theorem readString?_quote (done rest : List Char) :
    readString? done ('"' :: rest) = some (String.ofList done.reverse, rest) := by
  rw [readString?]

theorem readString?_plain (notQuote : c ≠ '"') (notSlash : c ≠ '\\') (visible : 32 ≤ c.toNat) (done rest : List Char) :
    readString? done (c :: rest) = readString? (c :: done) rest := by
  rw [readString?]
  · rw [if_neg (Nat.not_lt.2 visible)]
  all_goals simp_all

theorem readString?_short (short : shortEscape? c = some x) (notUnit : c ≠ 'u') (done rest : List Char) :
    readString? done ('\\' :: c :: rest) = readString? (x :: done) rest := by
  rw [readString?]
  · rw [short]
  all_goals simp_all

/-- Below the surrogates it does not matter whether another unit follows. -/
theorem readString?_unit (unit : hexUnit? a b c d = some n) (low : n < 0xd800) (done rest : List Char) :
    readString? done ('\\' :: 'u' :: a :: b :: c :: d :: rest) = readString? (Char.ofNat n :: done) rest := by
  have notHigh : isHighSurrogate n = false := by
    simp [isHighSurrogate]
    omega
  have notLow : isLowSurrogate n = false := by
    simp [isLowSurrogate]
    omega
  by_cases another : ∃ e f g h more, rest = '\\' :: 'u' :: e :: f :: g :: h :: more
  · obtain ⟨e, f, g, h, more, rfl⟩ := another
    rw [readString?, unit]
    simp only [notHigh, notLow, Bool.false_eq_true, if_false]
  · rw [readString?, unit]
    · simp only [notHigh, notLow, Bool.false_eq_true, if_false, Bool.or_self]
    · intro e f g h more same
      exact another ⟨e, f, g, h, more, same⟩

theorem hexUnit?_control :
    ∀ n < 32, hexUnit? '0' '0' (Text.hexDigit (n / 16)) (Text.hexDigit (n % 16)) = some n := by
  decide

/-- What a character is written as is read as that character. -/
theorem readString?_escapeChar (c : Char) (done rest : List Char) :
    readString? done (escapeChar c ++ rest) = readString? (c :: done) rest := by
  unfold escapeChar
  iterate 5
    split
    · next same =>
      rw [beq_iff_eq] at same
      subst same
      exact readString?_short rfl (by decide) done rest
  iterate 2
    split
    · next same =>
      rw [beq_iff_eq] at same
      rw [← Char.ofNat_toNat c, same]
      exact readString?_short rfl (by decide) done rest
  split
  · next control =>
    have read := readString?_unit (hexUnit?_control c.toNat control) (by omega) done rest
    rwa [Char.ofNat_toNat] at read
  · next notQuote notSlash _ _ _ _ _ visible =>
    rw [beq_iff_eq] at notQuote notSlash
    exact readString?_plain notQuote notSlash (Nat.not_lt.mp visible) done rest

theorem readString?_flatMap (cs done rest : List Char) :
    readString? done (cs.flatMap escapeChar ++ '"' :: rest) = some (String.ofList (done.reverse ++ cs), rest) := by
  induction cs generalizing done with
  | nil =>
      rw [List.flatMap_nil, List.nil_append, readString?_quote, List.append_nil]
  | cons c cs inductionHypothesis =>
      rw [List.flatMap_cons, List.append_assoc, readString?_escapeChar, inductionHypothesis, List.reverse_cons,
        List.append_assoc, List.singleton_append]

/-- After its opening quote. -/
theorem readString?_writeString (s : String) (rest : List Char) :
    writeString s ++ rest = '"' :: (s.toList.flatMap escapeChar ++ '"' :: rest) ∧
      readString? [] (s.toList.flatMap escapeChar ++ '"' :: rest) = some (s, rest) := by
  refine ⟨by simp [writeString], ?_⟩
  rw [readString?_flatMap, List.reverse_nil, List.nil_append, String.ofList_toList]

end Strings

/-! ## What is read -/

mutual

/-- What is read where a value is written. -/
def reread : Json → Json
  | null => null
  | bool b => bool b
  | num n => num (rereadNumber n)
  | str s => str s
  | arr items => arr (rereadItems items)
  | obj members => obj (Members.ofPairs (rereadMembers members))

/-- What is read where items are written. -/
def rereadItems : List Json → List Json
  | [] => []
  | json :: rest => json.reread :: rereadItems rest

/-- What is read where members are written, each under its key. -/
def rereadMembers : List (String × Json) → List (String × Json)
  | [] => []
  | (key, json) :: rest => (key, json.reread) :: rereadMembers rest

end

theorem rereadItems_eq_map (items : List Json) : rereadItems items = items.map reread := by
  induction items with
  | nil =>
      rfl
  | cons json rest inductionHypothesis =>
      rw [rereadItems, inductionHypothesis, List.map_cons]

theorem rereadMembers_eq_map (members : Members) :
    rereadMembers members = members.map fun member => (member.1, member.2.reread) := by
  induction members with
  | nil =>
      rfl
  | cons member rest inductionHypothesis =>
      rw [rereadMembers, inductionHypothesis, List.map_cons]

/-- A number is kept as JSON keeps numbers. -/
def KeepsNumber : Json → Prop
  | num n => (num n).Stored
  | _ => True

/-! ## Values by their first character -/

section Dispatch

variable {c : Char} {s rest : List Char} {nesting inner : Nat}

theorem skipBlank_cons (visible : isJsonBlank c = false) : skipBlank (c :: s) = c :: s := by
  simp [skipBlank, visible]

theorem Follows.skipBlank (follows : Follows rest) : skipBlank rest = rest := by
  cases rest with
  | nil =>
      rfl
  | cons c rest =>
      rcases follows with rfl | rfl | rfl <;> rfl

/-- A number starts with a digit or the sign. -/
theorem exists_cons_of_readNumber? {n : Number} (read : readNumber? s = some (n, rest)) :
    ∃ c t, s = c :: t ∧ (c = '-' ∨ c.isDigit = true) := by
  unfold readNumber? at read
  split at read
  next negative body parts =>
    split at parts
    · exact ⟨_, _, rfl, .inl rfl⟩
    · cases parts
      split at read
      · cases read
      · refine ⟨_, _, rfl, .inr ?_⟩
        split at read
        · cases read
        · next digit =>
          simpa using digit

theorem readValue?_number (starts : c = '-' ∨ c.isDigit = true) :
    readValue? nesting (c :: s) = (readNumber? (c :: s)).map fun (n, rest) => (num n, rest) := by
  have other {c' : Char} (notSign : c' ≠ '-') (noDigit : c'.isDigit = false) : c ≠ c' := by
    rcases starts with rfl | digit
    · exact notSign.symm
    · exact ne_of_isDigit digit noDigit
  have visible : isJsonBlank c = false := by
    simp [isJsonBlank, other]
  unfold readValue?
  rw [skipBlank_cons visible]
  split
  · next same => exact absurd (List.cons.inj same).1 (other (by decide) (by decide))
  · next same => exact absurd (List.cons.inj same).1 (other (by decide) (by decide))
  · next same => exact absurd (List.cons.inj same).1 (other (by decide) (by decide))
  · next same => exact absurd (List.cons.inj same).1 (other (by decide) (by decide))
  · next same => exact absurd (List.cons.inj same).1 (other (by decide) (by decide))
  · next same => exact absurd (List.cons.inj same).1 (other (by decide) (by decide))
  · rfl

theorem readValue?_array_zero : readValue? 0 ('[' :: s) = none := by
  simp [readValue?, skipBlank, isJsonBlank]

theorem readValue?_array_nil : readValue? (inner + 1) ('[' :: ']' :: s) = some (arr [], s) := by
  simp [readValue?, skipBlank, isJsonBlank]

theorem readValue?_array_items (visible : isJsonBlank c = false) (more : c ≠ ']') :
    readValue? (inner + 1) ('[' :: c :: s) =
      (readItems? (readValue? inner) (c :: s).length [] (c :: s)).map fun (items, rest) => (arr items, rest) := by
  have opened : skipBlank ('[' :: c :: s) = '[' :: c :: s := skipBlank_cons rfl
  simp only [readValue?, opened, skipBlank_cons visible]
  split
  · next same => exact absurd (List.cons.inj same).1 more
  · rfl

theorem readValue?_object_zero : readValue? 0 ('\x7b' :: s) = none := by
  simp [readValue?, skipBlank, isJsonBlank]

theorem readValue?_object_nil : readValue? (inner + 1) ('\x7b' :: '\x7d' :: s) = some (obj [], s) := by
  simp [readValue?, skipBlank, isJsonBlank]

theorem readValue?_object_members :
    readValue? (inner + 1) ('\x7b' :: '"' :: s) =
      (readMembers? (readValue? inner) ('"' :: s).length [] ('"' :: s)).map fun (members, rest) => (obj members, rest) := by
  have opened : skipBlank ('\x7b' :: '"' :: s) = '\x7b' :: '"' :: s := skipBlank_cons rfl
  have visible : skipBlank ('"' :: s) = '"' :: s := skipBlank_cons rfl
  simp [readValue?, opened, visible]

end Dispatch

/-! ## Values -/

section Values

variable {json : Json} {items : List Json} {members : Members} {inner nesting : Nat} {rest : List Char}

theorem exists_cons_write (kept : json.KeepsNumber) :
    ∃ c s, json.write = c :: s ∧ isJsonBlank c = false ∧ c ≠ ']' := by
  cases json with
  | null => exact ⟨_, _, rfl, rfl, by decide⟩
  | bool b => cases b <;> exact ⟨_, _, rfl, rfl, by decide⟩
  | num n =>
      obtain ⟨c, s, written, starts⟩ := exists_cons_of_readNumber? (readsAs_writeNumber kept [] trivial)
      rw [List.append_nil] at written
      refine ⟨c, s, written, ?_, ?_⟩
      · rcases starts with rfl | digit
        · rfl
        · simp [isJsonBlank, ne_of_isDigit digit]
      · rcases starts with rfl | digit
        · decide
        · exact ne_of_isDigit digit rfl
  | str s => exact ⟨_, _, rfl, rfl, by decide⟩
  | arr items => exact ⟨_, _, rfl, rfl, by decide⟩
  | obj members => exact ⟨_, _, rfl, rfl, by decide⟩

/-- A value is read wherever it is written, unless it is too deep. -/
def ReadWithin (inner : Nat) (json : Json) : Prop :=
  ∀ rest, Follows rest →
    readValue? inner (json.write ++ rest) = if json.depth ≤ inner then some (json.reread, rest) else none

theorem length_le_writeItems (each : ∀ item ∈ items, item.write ≠ []) : items.length ≤ (writeItems items).length := by
  induction items with
  | nil =>
      exact Nat.le_refl _
  | cons item others inductionHypothesis =>
      obtain ⟨head, tail⟩ := List.forall_mem_cons.mp each
      have one := List.length_pos_iff.mpr head
      have more := inductionHypothesis tail
      cases others with
      | nil =>
          exact one
      | cons next others =>
          simp only [writeItems, List.length_append, List.length_cons] at more ⊢
          omega

theorem length_le_writeMembers (members : Members) : members.length ≤ (writeMembers members).length := by
  induction members with
  | nil =>
      exact Nat.le_refl _
  | cons member others inductionHypothesis =>
      obtain ⟨key, value⟩ := member
      cases others with
      | nil =>
          simp only [writeMembers, List.length_append, List.length_cons, List.length_nil]
          omega
      | cons next others =>
          simp only [writeMembers, List.length_append, List.length_cons] at inductionHypothesis ⊢
          omega

theorem readItems?_writeItems (each : ∀ item ∈ items, ReadWithin inner item) (nonempty : items ≠ []) {fuel : Nat}
    (enough : items.length ≤ fuel) (done : List Json) (rest : List Char) :
    readItems? (readValue? inner) fuel done (writeItems items ++ ']' :: rest) =
      if depthOfItems items ≤ inner then some (done.reverse ++ rereadItems items, rest) else none := by
  induction items generalizing fuel done with
  | nil =>
      exact absurd rfl nonempty
  | cons item others inductionHypothesis =>
      obtain ⟨head, tail⟩ := List.forall_mem_cons.mp each
      obtain ⟨fuel, rfl⟩ : ∃ less, fuel = less + 1 := ⟨fuel - 1, by rw [List.length_cons] at enough; omega⟩
      cases others with
      | nil =>
          have read := head (']' :: rest) (.inr (.inl rfl))
          rw [writeItems, readItems?, read]
          by_cases shallow : item.depth ≤ inner
          · simp [shallow, depthOfItems, rereadItems, skipBlank, isJsonBlank]
          · simp [shallow, depthOfItems]
      | cons next others =>
          have read := head (',' :: (writeItems (next :: others) ++ ']' :: rest)) (.inl rfl)
          have text : writeItems (item :: next :: others) ++ ']' :: rest =
              item.write ++ ',' :: (writeItems (next :: others) ++ ']' :: rest) := by
            simp [writeItems]
          rw [text, readItems?, read]
          have blank : skipBlank (',' :: (writeItems (next :: others) ++ ']' :: rest)) =
              ',' :: (writeItems (next :: others) ++ ']' :: rest) := skipBlank_cons rfl
          have later := inductionHypothesis tail (List.cons_ne_nil _ _) (Nat.le_of_succ_le_succ enough) (item.reread :: done)
          rw [depthOfItems, rereadItems]
          by_cases shallow : item.depth ≤ inner
          · simp [shallow, blank, later]
          · simp [shallow]

theorem readMembers?_writeMembers (each : ∀ part ∈ members.map Prod.snd, ReadWithin inner part) (nonempty : members ≠ [])
    {fuel : Nat} (enough : members.length ≤ fuel) (done : Members) (rest : List Char) :
    readMembers? (readValue? inner) fuel done (writeMembers members ++ '\x7d' :: rest) =
      if depthOfMembers members ≤ inner then
        some ((rereadMembers members).foldl (fun members (key, value) => members.set key value) done, rest)
      else none := by
  induction members generalizing fuel done with
  | nil =>
      exact absurd rfl nonempty
  | cons member others inductionHypothesis =>
      obtain ⟨key, value⟩ := member
      obtain ⟨head, tail⟩ := List.forall_mem_cons.mp each
      obtain ⟨fuel, rfl⟩ : ∃ less, fuel = less + 1 := ⟨fuel - 1, by rw [List.length_cons] at enough; omega⟩
      have quote (s : List Char) : skipBlank ('"' :: s) = '"' :: s := skipBlank_cons rfl
      have colon (s : List Char) : skipBlank (':' :: s) = ':' :: s := skipBlank_cons rfl
      cases others with
      | nil =>
          have read := head ('\x7d' :: rest) (.inr (.inr rfl))
          have close : skipBlank ('\x7d' :: rest) = '\x7d' :: rest := skipBlank_cons rfl
          obtain ⟨text, readKey⟩ := readString?_writeString key (':' :: (value.write ++ '\x7d' :: rest))
          rw [writeMembers, List.append_assoc, List.cons_append, text]
          simp only [readMembers?, quote, readKey, colon, read]
          by_cases shallow : value.depth ≤ inner
          · simp [shallow, close, depthOfMembers, rereadMembers]
          · simp [shallow, depthOfMembers]
      | cons next others =>
          have read := head (',' :: (writeMembers (next :: others) ++ '\x7d' :: rest)) (.inl rfl)
          have comma : skipBlank (',' :: (writeMembers (next :: others) ++ '\x7d' :: rest)) =
              ',' :: (writeMembers (next :: others) ++ '\x7d' :: rest) := skipBlank_cons rfl
          obtain ⟨text, readKey⟩ := readString?_writeString key
            (':' :: (value.write ++ ',' :: (writeMembers (next :: others) ++ '\x7d' :: rest)))
          have parts : writeMembers ((key, value) :: next :: others) ++ '\x7d' :: rest =
              writeString key ++ ':' :: (value.write ++ ',' :: (writeMembers (next :: others) ++ '\x7d' :: rest)) := by
            simp [writeMembers]
          have later := inductionHypothesis tail (List.cons_ne_nil _ _) (Nat.le_of_succ_le_succ enough)
            (done.set key value.reread)
          rw [parts, text, depthOfMembers, rereadMembers]
          simp only [readMembers?, quote, readKey, colon, read]
          by_cases shallow : value.depth ≤ inner
          · simp [shallow, comma, later]
          · simp [shallow]

theorem readWithin_arr (each : ∀ item ∈ items, ReadWithin inner item) (kept : ∀ item ∈ items, item.KeepsNumber) :
    ReadWithin (inner + 1) (.arr items) := by
  intro rest follows
  have text : (Json.arr items).write ++ rest = '[' :: (writeItems items ++ ']' :: rest) := by
    simp [write]
  rw [text, depth, reread]
  cases items with
  | nil =>
      simp [writeItems, readValue?_array_nil, depthOfItems, rereadItems]
  | cons item others =>
      have written : ∀ json ∈ item :: others, json.write ≠ [] := by
        intro json held
        obtain ⟨c, s, written, -⟩ := exists_cons_write (kept json held)
        rw [written]
        exact List.cons_ne_nil _ _
      have enough : (item :: others).length ≤ (writeItems (item :: others) ++ ']' :: rest).length := by
        rw [List.length_append]
        exact Nat.le_trans (length_le_writeItems written) (Nat.le_add_right _ _)
      have read := readItems?_writeItems each (List.cons_ne_nil _ _) enough [] rest
      obtain ⟨c, s, starts, visible, more⟩ := exists_cons_write (kept item List.mem_cons_self)
      obtain ⟨t, starts⟩ : ∃ t, writeItems (item :: others) ++ ']' :: rest = c :: t := by
        cases others with
        | nil => exact ⟨_, by rw [writeItems, starts]; rfl⟩
        | cons next others => exact ⟨_, by simp only [writeItems, starts]; rfl⟩
      rw [starts] at read ⊢
      rw [readValue?_array_items visible more, read]
      by_cases shallow : depthOfItems (item :: others) ≤ inner <;> simp [shallow]

theorem readWithin_obj (each : ∀ part ∈ members.map Prod.snd, ReadWithin inner part) :
    ReadWithin (inner + 1) (.obj members) := by
  intro rest follows
  have text : (Json.obj members).write ++ rest = '\x7b' :: (writeMembers members ++ '\x7d' :: rest) := by
    simp [write]
  rw [text, depth, reread]
  cases members with
  | nil =>
      simp [writeMembers, readValue?_object_nil, depthOfMembers, rereadMembers, Members.ofPairs]
  | cons member others =>
      have enough : (member :: others).length ≤ (writeMembers (member :: others) ++ '\x7d' :: rest).length := by
        rw [List.length_append]
        exact Nat.le_trans (length_le_writeMembers _) (Nat.le_add_right _ _)
      have read := readMembers?_writeMembers each (List.cons_ne_nil _ _) enough [] rest
      obtain ⟨t, starts⟩ : ∃ t, writeMembers (member :: others) ++ '\x7d' :: rest = '"' :: t := by
        cases others with
        | nil => exact ⟨_, by rw [writeMembers, writeString]; rfl⟩
        | cons next others => exact ⟨_, by simp only [writeMembers, writeString]; rfl⟩
      rw [starts] at read ⊢
      rw [readValue?_object_members, read]
      by_cases shallow : depthOfMembers (member :: others) ≤ inner <;> simp [shallow, Members.ofPairs]

/-- The reader and the writer agree, up to the nesting that the reader allows. -/
theorem readWithin (kept : json.Everywhere KeepsNumber) (nesting : Nat) : ReadWithin nesting json := by
  induction json using induct generalizing nesting with
  | step json inductionHypothesis =>
    have parts (inner : Nat) : ∀ part ∈ json.parts, ReadWithin inner part := fun part held =>
      inductionHypothesis part held (kept.parts part held) inner
    cases json with
    | null =>
        intro rest _
        simp [write, readValue?, skipBlank, isJsonBlank, depth, reread]
    | bool b =>
        intro rest _
        cases b <;> simp [write, readValue?, skipBlank, isJsonBlank, depth, reread]
    | num n =>
        intro rest follows
        have read := readsAs_writeNumber kept.here rest follows
        obtain ⟨c, s, written, starts⟩ := exists_cons_of_readNumber? read
        have shallow : (num n).depth ≤ nesting := Nat.zero_le nesting
        rw [if_pos shallow, write, reread, written, readValue?_number starts, ← written, read]
        rfl
    | str s =>
        intro rest _
        obtain ⟨text, read⟩ := readString?_writeString s rest
        have quote (t : List Char) : skipBlank ('"' :: t) = '"' :: t := skipBlank_cons rfl
        have shallow : (str s).depth ≤ nesting := Nat.zero_le nesting
        rw [if_pos shallow, write, reread, text]
        simp [readValue?, quote, read]
    | arr items =>
        cases nesting with
        | zero =>
            intro rest _
            simp [write, readValue?_array_zero, depth]
        | succ inner =>
            exact readWithin_arr (parts inner) fun item held => (kept.parts item held).here
    | obj members =>
        cases nesting with
        | zero =>
            intro rest _
            simp [write, readValue?_object_zero, depth]
        | succ inner =>
            exact readWithin_obj (parts inner)

/-- The text of a value is read, unless it is too deep. -/
theorem parse?_compress (kept : json.Everywhere KeepsNumber) :
    parse? json.compress = if json.depth ≤ maxNesting then some json.reread else none := by
  have read := readWithin kept maxNesting [] trivial
  rw [List.append_nil] at read
  rw [parse?, compress, String.toList_ofList, read]
  by_cases shallow : json.depth ≤ maxNesting <;> simp [shallow, skipBlank]

/-- Nothing gets deeper by being written and read. -/
theorem depth_reread_le (json : Json) : json.reread.depth ≤ json.depth := by
  induction json using induct with
  | step json inductionHypothesis =>
    cases json with
    | arr items =>
        rw [reread, depth, depth, rereadItems_eq_map]
        refine Nat.succ_le_succ (depthOfItems_le_iff.mpr (List.forall_mem_map.mpr fun item held => ?_))
        exact Nat.le_trans (inductionHypothesis item held) (depth_le_depthOfItems held)
    | obj members =>
        rw [reread, depth, depth, rereadMembers_eq_map]
        refine Nat.succ_le_succ (depthOfMembers_le_iff.mpr (List.forall_mem_map.mpr fun member held => ?_))
        obtain ⟨original, listed, rfl⟩ := List.mem_map.mp (Members.mem_of_mem_ofPairs held)
        have part : original.2 ∈ members.map Prod.snd := List.mem_map_of_mem listed
        exact Nat.le_trans (inductionHypothesis _ part) (depth_le_depthOfMembers part)
    | null | bool | num | str =>
        exact Nat.le_refl _

end Values

end SchemaRpc.Json
