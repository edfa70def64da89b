import SchemaRpc.Proofs.Casing.Words

/-!
# Ordinary names

Names like `user_id` or `line2_text`: words of small letters and digits, none of them beginning with a digit, joined by
underscores. They are cut at their underscores and nowhere else (`words_joined`). In camel and pascal case each word that
is joined to another begins with the only capital that it has, so that the words can be read off the key
(`row_injective`); no style makes two ordinary names one key (`ordinary_apart`).
-/

namespace SchemaRpc.Casing

/-- The small letters and the digits of ASCII. -/
def isSmall (c : Char) : Bool :=
  c.isLower || c.isDigit

/-- A small letter, and then small letters and digits. -/
def isWord : List Char → Bool
  | [] => false
  | first :: rest => first.isLower && rest.all isSmall

def joined (ws : List (List Char)) : String :=
  "_".intercalate (ws.map String.ofList)

/-- A name of at least one word, joined by underscores. -/
def Ordinary (name : String) : Prop :=
  ∃ ws : List (List Char), ws ≠ [] ∧ (∀ w ∈ ws, isWord w = true) ∧ name = joined ws

variable {c first : Char} {current word rest : List Char} {ws ws' : List (List Char)}

/-! ## Characters -/

theorem ascii_of_isSmall (small : isSmall c = true) : c.toNat < 128 := by
  rcases Bool.or_eq_true_iff.1 small with lower | digit
  · obtain ⟨-, most⟩ := Bool.and_eq_true_iff.1 lower
    exact Nat.lt_of_le_of_lt (UInt32.le_iff_toNat_le.1 (of_decide_eq_true most)) (by decide)
  · obtain ⟨-, most⟩ := Bool.and_eq_true_iff.1 digit
    exact Nat.lt_of_le_of_lt (UInt32.le_iff_toNat_le.1 (of_decide_eq_true most)) (by decide)

theorem isSmall_of_isLower (lower : c.isLower = true) : isSmall c = true := by
  rw [isSmall, lower, Bool.true_or]

/-- A small character separates nothing, begins no word after another, and is its own lower case. -/
theorem isSmall_spec (small : isSmall c = true) :
    isSeparator c = false ∧ Text.isUppercase c = false ∧ Text.toLowercase c = [c] :=
  forall_of_ascii (P := fun c => isSmall c = true →
    isSeparator c = false ∧ Text.isUppercase c = false ∧ Text.toLowercase c = [c]) (by decide) (ascii_of_isSmall small)
    small

/-- The capital of a small letter is neither small nor a separator, and tells the letter. -/
theorem toUpper_spec (lower : c.isLower = true) :
    Text.toUppercase c = [c.toUpper] ∧ isSmall c.toUpper = false ∧ isSeparator c.toUpper = false ∧
      c.toUpper.toLower = c :=
  forall_of_ascii (P := fun c => c.isLower = true →
    Text.toUppercase c = [c.toUpper] ∧ isSmall c.toUpper = false ∧ isSeparator c.toUpper = false ∧
      c.toUpper.toLower = c) (by decide) (ascii_of_isSmall (isSmall_of_isLower lower)) lower

/-! ## Words -/

theorem isWord_cons : isWord (first :: rest) = true ↔ first.isLower = true ∧ ∀ c ∈ rest, isSmall c = true := by
  rw [isWord, Bool.and_eq_true, List.all_eq_true]

theorem exists_of_isWord (proper : isWord word = true) : ∃ first rest,
    word = first :: rest ∧ first.isLower = true ∧ ∀ c ∈ rest, isSmall c = true := by
  cases word with
  | nil =>
      cases proper
  | cons first rest =>
      exact ⟨first, rest, rfl, isWord_cons.1 proper⟩

/-- The first word of a name has a first character. -/
theorem exists_first (each : ∀ w ∈ ws, isWord w = true) (filled : ws ≠ []) :
    ∃ first rest others, ws = (first :: rest) :: others ∧ isWord (first :: rest) = true := by
  obtain ⟨word, others, rfl⟩ := List.exists_cons_of_ne_nil filled
  have here := each word List.mem_cons_self
  obtain ⟨first, rest, rfl, -⟩ := exists_of_isWord here
  exact ⟨first, rest, others, rfl, here⟩

theorem isSmall_of_mem (proper : isWord word = true) : ∀ c ∈ word, isSmall c = true := by
  obtain ⟨first, rest, rfl, lower, small⟩ := exists_of_isWord proper
  exact List.forall_mem_cons.2 ⟨isSmall_of_isLower lower, small⟩

/-- Small characters go on with the open word. -/
theorem wordsFrom_append (small : ∀ c ∈ word, isSmall c = true) :
    wordsFrom current (word ++ rest) = wordsFrom (word.reverse ++ current) rest := by
  induction word generalizing current with
  | nil =>
      rfl
  | cons c word inductionHypothesis =>
      obtain ⟨here, later⟩ := List.forall_mem_cons.1 small
      obtain ⟨keeps, notCapital, -⟩ := isSmall_spec here
      have goesOn : wordsFrom current (c :: (word ++ rest)) = wordsFrom (c :: current) (word ++ rest) := by
        cases current with
        | nil =>
            simp [wordsFrom, keeps]
        | cons previous before =>
            simp [wordsFrom, keeps, breaksBefore, notCapital]
      rw [List.cons_append, goesOn, inductionHypothesis later, List.reverse_cons, List.append_assoc,
        List.singleton_append]

theorem toList_joined : (joined ws).toList = ['_'].intercalate ws := by
  simp [joined, String.toList_intercalate, Function.comp_def]

theorem words_joined (each : ∀ w ∈ ws, isWord w = true) : words (joined ws) = ws := by
  rw [words, toList_joined]
  induction ws with
  | nil =>
      rfl
  | cons w ws inductionHypothesis =>
      obtain ⟨here, later⟩ := List.forall_mem_cons.1 each
      have filled : w ≠ [] := by
        obtain ⟨first, rest, rfl, -⟩ := exists_of_isWord here
        exact List.cons_ne_nil first rest
      cases ws with
      | nil =>
          have ends : wordsFrom [] (w ++ []) = wordsFrom (w.reverse ++ []) [] :=
            wordsFrom_append (isSmall_of_mem here)
          simpa [wordsFrom, filled] using ends
      | cons next ws =>
          rw [List.intercalate_cons_cons, List.append_assoc, wordsFrom_append (isSmall_of_mem here)]
          have cut : isSeparator '_' = true := by decide
          simp only [List.append_nil, List.singleton_append, wordsFrom, cut, if_true, List.isEmpty_reverse,
            List.isEmpty_eq_false_iff.2 filled, List.reverse_reverse]
          rw [inductionHypothesis later]
          rfl

theorem lowercaseWord_of_isSmall (small : ∀ c ∈ word, isSmall c = true) : Text.lowercaseWord word = word := by
  have unchanged : ∀ c ∈ word, c.toLower = c := fun c member =>
    forall_of_ascii (P := fun c => isSmall c = true → c.toLower = c) (by decide) (ascii_of_isSmall (small c member))
      (small c member)
  rw [lowercaseWord_of_ascii fun c member => ascii_of_isSmall (small c member)]
  exact (List.map_congr_left unchanged).trans (List.map_id word)

theorem capitalize_of_isWord (proper : isWord (first :: rest) = true) :
    Text.capitalize (first :: rest) = first.toUpper :: rest := by
  obtain ⟨lower, small⟩ := isWord_cons.1 proper
  have unchanged : rest.flatMap Text.toLowercase = rest := by
    induction rest with
    | nil =>
        rfl
    | cons c rest inductionHypothesis =>
        obtain ⟨here, later⟩ := List.forall_mem_cons.1 small
        rw [List.flatMap_cons, (isSmall_spec here).2.2,
          inductionHypothesis (isWord_cons.2 ⟨lower, later⟩) later, List.singleton_append]
  rw [Text.capitalize, (toUpper_spec lower).1, unchanged, List.singleton_append]

/-! ## Words in a row -/

theorem row_cons (proper : isWord (first :: rest) = true) :
    ((first :: rest) :: ws).flatMap Text.capitalize = first.toUpper :: (rest ++ ws.flatMap Text.capitalize) := by
  rw [List.flatMap_cons, capitalize_of_isWord proper, List.cons_append]

/-- Small characters before a row of words end where the first capital is. -/
theorem takeWhile_row (small : ∀ c ∈ word, isSmall c = true) (each : ∀ w ∈ ws, isWord w = true) :
    (word ++ ws.flatMap Text.capitalize).takeWhile isSmall = word := by
  rw [List.takeWhile_append_of_pos small]
  cases ws with
  | nil =>
      exact List.append_nil word
  | cons w ws =>
      have proper := each w List.mem_cons_self
      obtain ⟨first, rest, rfl, lower, -⟩ := exists_of_isWord proper
      rw [row_cons proper, List.takeWhile_cons, (toUpper_spec lower).2.1]
      exact List.append_nil word

/-- The words can be read off their row: each begins with a capital and holds no other. -/
theorem row_injective (each : ∀ w ∈ ws, isWord w = true) (each' : ∀ w ∈ ws', isWord w = true)
    (same : ws.flatMap Text.capitalize = ws'.flatMap Text.capitalize) : ws = ws' := by
  induction ws generalizing ws' with
  | nil =>
      cases ws' with
      | nil =>
          rfl
      | cons w' ws' =>
          have proper' := each' w' List.mem_cons_self
          obtain ⟨first', rest', rfl, -⟩ := exists_of_isWord proper'
          rw [row_cons proper'] at same
          cases same
  | cons w ws inductionHypothesis =>
      obtain ⟨proper, later⟩ := List.forall_mem_cons.1 each
      obtain ⟨first, rest, rfl, lower, small⟩ := exists_of_isWord proper
      rw [row_cons proper] at same
      cases ws' with
      | nil =>
          cases same
      | cons w' ws' =>
          obtain ⟨proper', later'⟩ := List.forall_mem_cons.1 each'
          obtain ⟨first', rest', rfl, lower', small'⟩ := exists_of_isWord proper'
          rw [row_cons proper'] at same
          obtain ⟨sameCapital, sameRest⟩ := List.cons.inj same
          have sameFirst : first = first' := by
            rw [← (toUpper_spec lower).2.2.2, sameCapital, (toUpper_spec lower').2.2.2]
          have sameSmall : rest = rest' := by
            rw [← takeWhile_row small later, sameRest, takeWhile_row small' later']
          subst sameFirst sameSmall
          rw [inductionHypothesis later later' (List.append_cancel_left sameRest)]

/-! ## Keys -/

theorem camelCase_joined (each : ∀ w ∈ word :: ws, isWord w = true) :
    (camelCase (joined (word :: ws))).toList = word ++ ws.flatMap Text.capitalize := by
  rw [camelCase, words_joined each]
  dsimp only
  rw [String.toList_ofList, lowercaseWord_of_isSmall (isSmall_of_mem (each word List.mem_cons_self))]

theorem pascalCase_joined (each : ∀ w ∈ ws, isWord w = true) :
    (pascalCase (joined ws)).toList = ws.flatMap Text.capitalize := by
  rw [pascalCase, words_joined each, String.toList_ofList]

/-- Snake case is how ordinary names are written already. -/
theorem snakeCase_joined (each : ∀ w ∈ ws, isWord w = true) : snakeCase (joined ws) = joined ws := by
  have unchanged : (ws.map fun word => String.ofList (Text.lowercaseWord word)) = ws.map String.ofList :=
    List.map_congr_left fun w listed =>
      congrArg String.ofList (lowercaseWord_of_isSmall (isSmall_of_mem (each w listed)))
  rw [snakeCase, joinLower, words_joined each, unchanged, joined]

theorem apply_joined_injective (casing : Casing) (each : ∀ w ∈ ws, isWord w = true)
    (each' : ∀ w ∈ ws', isWord w = true) (filled : ws ≠ []) (filled' : ws' ≠ [])
    (same : casing.apply (joined ws) = casing.apply (joined ws')) : joined ws = joined ws' := by
  cases casing with
  | identity =>
      exact same
  | snake =>
      rwa [apply, apply, snakeCase_joined each, snakeCase_joined each'] at same
  | pascal =>
      have sameRow := congrArg String.toList same
      rw [apply, apply, pascalCase_joined each, pascalCase_joined each'] at sameRow
      rw [row_injective each each' sameRow]
  | camel =>
      obtain ⟨word, ws, rfl⟩ := List.exists_cons_of_ne_nil filled
      obtain ⟨word', ws', rfl⟩ := List.exists_cons_of_ne_nil filled'
      have sameKey := congrArg String.toList same
      rw [apply, apply, camelCase_joined each, camelCase_joined each'] at sameKey
      obtain ⟨proper, later⟩ := List.forall_mem_cons.1 each
      obtain ⟨proper', later'⟩ := List.forall_mem_cons.1 each'
      have sameWord : word = word' := by
        rw [← takeWhile_row (isSmall_of_mem proper) later, sameKey, takeWhile_row (isSmall_of_mem proper') later']
      subst sameWord
      rw [row_injective later later' (List.append_cancel_left sameKey)]

theorem joined_ne_empty (each : ∀ w ∈ ws, isWord w = true) (filled : ws ≠ []) : joined ws ≠ "" := by
  intro empty
  have noWords : words (joined ws) = words "" := congrArg words empty
  rw [words_joined each] at noWords
  exact filled noWords

theorem apply_joined_ne_empty (casing : Casing) (each : ∀ w ∈ ws, isWord w = true) (filled : ws ≠ []) :
    casing.apply (joined ws) ≠ "" := by
  cases casing with
  | identity =>
      exact joined_ne_empty each filled
  | snake =>
      rw [apply, snakeCase_joined each]
      exact joined_ne_empty each filled
  | pascal =>
      intro empty
      obtain ⟨first, rest, ws, rfl, proper⟩ := exists_first each filled
      have noChars := congrArg String.toList empty
      rw [apply, pascalCase_joined each, row_cons proper] at noChars
      cases noChars
  | camel =>
      intro empty
      obtain ⟨first, rest, ws, rfl, -⟩ := exists_first each filled
      have noChars := congrArg String.toList empty
      rw [apply, camelCase_joined each] at noChars
      cases noChars

theorem separator_joined (each : ∀ w ∈ ws, isWord w = true) :
    ∀ c ∈ (joined ws).toList, isSeparator c = true → c = '_' := by
  rw [toList_joined]
  induction ws with
  | nil =>
      exact List.forall_mem_nil _
  | cons w ws inductionHypothesis =>
      obtain ⟨proper, later⟩ := List.forall_mem_cons.1 each
      have inWord : ∀ c ∈ w, isSeparator c = true → c = '_' := by
        intro c member separates
        rw [(isSmall_spec (isSmall_of_mem proper c member)).1] at separates
        cases separates
      cases ws with
      | nil =>
          rwa [List.intercalate_singleton]
      | cons next ws =>
          rw [List.intercalate_cons_cons]
          exact List.forall_mem_append.2
            ⟨List.forall_mem_append.2 ⟨inWord, List.forall_mem_singleton.2 fun _ => rfl⟩, inductionHypothesis later⟩

/-- There are no separators in a row of words. -/
theorem isSeparator_row (each : ∀ w ∈ ws, isWord w = true) :
    ∀ c ∈ ws.flatMap Text.capitalize, isSeparator c = false := by
  intro c member
  obtain ⟨w, listed, inside⟩ := List.mem_flatMap.1 member
  obtain ⟨first, rest, rfl, lower, small⟩ := exists_of_isWord (each w listed)
  rw [capitalize_of_isWord (each _ listed)] at inside
  rcases List.mem_cons.1 inside with rfl | inside
  · exact (toUpper_spec lower).2.2.1
  · exact (isSmall_spec (small c inside)).1

theorem separator_apply_joined (casing : Casing) (each : ∀ w ∈ ws, isWord w = true) :
    ∀ c ∈ (casing.apply (joined ws)).toList, isSeparator c = true → c = '_' := by
  intro c member separates
  cases casing with
  | identity =>
      exact separator_joined each c member separates
  | snake =>
      rw [apply, snakeCase_joined each] at member
      exact separator_joined each c member separates
  | pascal =>
      rw [apply, pascalCase_joined each] at member
      rw [isSeparator_row each c member] at separates
      cases separates
  | camel =>
      cases ws with
      | nil =>
          cases member
      | cons word ws =>
          rw [apply, camelCase_joined each] at member
          obtain ⟨proper, later⟩ := List.forall_mem_cons.1 each
          have keeps : isSeparator c = false := by
            rcases List.mem_append.1 member with inside | inside
            · exact (isSmall_spec (isSmall_of_mem proper c inside)).1
            · exact isSeparator_row later c inside
          rw [keeps] at separates
          cases separates

/-- In every style an ordinary name has a key, which holds no separator but underscores and is the key of no other
ordinary name. In snake case the key is the name. -/
theorem ordinary_apart (casing : Casing) {name : String} (ordinary : Ordinary name) :
    casing.apply name ≠ "" ∧ snake.apply name = name ∧
      (∀ c ∈ (casing.apply name).toList, isSeparator c = true → c = '_') ∧
      ∀ other, Ordinary other → name ≠ other → casing.apply name ≠ casing.apply other := by
  obtain ⟨ws, filled, each, rfl⟩ := ordinary
  refine ⟨apply_joined_ne_empty casing each filled, snakeCase_joined each, separator_apply_joined casing each, ?_⟩
  rintro other ⟨ws', filled', each', rfl⟩ different sameKey
  exact different (apply_joined_injective casing each each' filled filled' sameKey)

/-- Digits before and after an underscore, and a name with the same letters and digits and no underscore. -/
theorem ordinary_apart_digits :
    Ordinary "x1_y2" ∧ Ordinary "x1y2" ∧ camel.apply "x1_y2" ≠ camel.apply "x1y2" ∧ camel.apply "x1_y2" = "x1Y2" := by
  have ordinary : Ordinary "x1_y2" := ⟨[['x', '1'], ['y', '2']], List.cons_ne_nil _ _, by decide, rfl⟩
  have ordinary' : Ordinary "x1y2" := ⟨[['x', '1', 'y', '2']], List.cons_ne_nil _ _, by decide, rfl⟩
  exact ⟨ordinary, ordinary', (ordinary_apart camel ordinary).2.2.2 "x1y2" ordinary' (by decide), by decide⟩

end SchemaRpc.Casing
