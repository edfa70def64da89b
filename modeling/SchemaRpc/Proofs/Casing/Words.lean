import SchemaRpc.Casing

/-!
# Words and their letters

The splitter drops the separators of a name and nothing else (`flatten_words`), and it makes no empty word. A word of
ASCII characters is put in small letters character by character.
-/

namespace SchemaRpc.Casing

variable {c : Char} {name : String} {current rest word : List Char}

/-! ## What words are made of -/

theorem wordsFrom_nil_cons (c : Char) (rest : List Char) :
    wordsFrom [] (c :: rest) = if isSeparator c then wordsFrom [] rest else wordsFrom [c] rest :=
  rfl

theorem wordsFrom_cons_cons (previous : Char) (before : List Char) (c : Char) (rest : List Char) :
    wordsFrom (previous :: before) (c :: rest) =
      if isSeparator c then (previous :: before).reverse :: wordsFrom [] rest
      else if breaksBefore previous c rest.head? then (previous :: before).reverse :: wordsFrom [c] rest
      else wordsFrom (c :: previous :: before) rest :=
  rfl

theorem flatten_wordsFrom :
    (wordsFrom current rest).flatten = current.reverse ++ rest.filter fun c => !isSeparator c := by
  induction rest generalizing current with
  | nil =>
      cases current <;> simp [wordsFrom]
  | cons c rest inductionHypothesis =>
      cases current with
      | nil =>
          rw [wordsFrom_nil_cons]
          split <;> simp [*]
      | cons previous before =>
          rw [wordsFrom_cons_cons]
          split
          · simp [*]
          · split <;> simp [*]

theorem ne_nil_of_mem_wordsFrom (listed : word ∈ wordsFrom current rest) : word ≠ [] := by
  induction rest generalizing current with
  | nil =>
      cases current with
      | nil =>
          cases listed
      | cons previous before =>
          rw [List.mem_singleton.1 listed]
          simp
  | cons c rest inductionHypothesis =>
      cases current with
      | nil =>
          rw [wordsFrom_nil_cons] at listed
          split at listed <;> exact inductionHypothesis listed
      | cons previous before =>
          -- an open word that is closed here holds the character before
          have closed {opened : List Char} (listed : word ∈ (previous :: before).reverse :: wordsFrom opened rest) :
              word ≠ [] := by
            rcases List.mem_cons.1 listed with rfl | later
            · simp
            · exact inductionHypothesis later
          rw [wordsFrom_cons_cons] at listed
          split at listed
          · exact closed listed
          · split at listed
            · exact closed listed
            · exact inductionHypothesis listed

/-- The words of a name in a row are the name without its separators. -/
theorem flatten_words (name : String) :
    (words name).flatten = name.toList.filter fun c => !isSeparator c := by
  rw [words, flatten_wordsFrom]
  rfl

theorem ne_nil_of_mem_words (listed : word ∈ words name) : word ≠ [] :=
  ne_nil_of_mem_wordsFrom listed

theorem mem_of_mem_word (listed : word ∈ words name) (inside : c ∈ word) :
    c ∈ name.toList ∧ isSeparator c = false := by
  have kept : c ∈ (words name).flatten := List.mem_flatten.2 ⟨word, listed, inside⟩
  rw [flatten_words] at kept
  simpa using kept

/-- A name with a character that separates nothing has a word. -/
theorem words_ne_nil (member : c ∈ name.toList) (keeps : isSeparator c = false) : words name ≠ [] := by
  intro none
  have kept : c ∈ name.toList.filter fun c => !isSeparator c := by
    simp [member, keeps]
  rw [← flatten_words, none] at kept
  cases kept

/-! ## Small letters -/

theorem forall_of_ascii {P : Char → Prop} (all : ∀ n < 128, P (Char.ofNat n)) (ascii : c.toNat < 128) : P c := by
  have holds := all c.toNat ascii
  rwa [Char.ofNat_toNat] at holds

theorem lowercaseWord_of_ascii (ascii : ∀ c ∈ word, c.toNat < 128) :
    Text.lowercaseWord word = word.map Char.toLower := by
  have general (before : List Char) : Text.lowercaseAfter before word = word.map Char.toLower := by
    induction word generalizing before with
    | nil =>
        rfl
    | cons c word inductionHypothesis =>
        obtain ⟨here, later⟩ := List.forall_mem_cons.1 ascii
        have noSigma : (c.toNat == 0x3a3) = false := beq_false_of_ne (Nat.ne_of_lt (Nat.lt_trans here (by decide)))
        have image : Text.toLowercase c = [c.toLower] := by
          rw [Text.toLowercase, if_pos here]
        simp [Text.lowercaseAfter, noSigma, image, inductionHypothesis later]
  exact general []

end SchemaRpc.Casing
