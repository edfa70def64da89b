import Mathlib.Data.List.Chain
import SchemaRpc.Proofs.Casing.Words

/-!
# Where words begin and end

The words of a name are spans of it (`Layout`): they hold every character but the separators, and where one ends and the
next begins there is a separator or a change of case. Looking behind by position finds the same words and never looks
before the start (`wordsByIndex?_eq`).
-/

namespace SchemaRpc.Casing

/-- The character at the position ends words and belongs to none. -/
def SeparatesAt (cs : List Char) (i : Nat) : Prop :=
  ∃ c, cs[i]? = some c ∧ isSeparator c = true

/-- An upper-case character stands at the position, after a lower-case one, after an ASCII digit, or between an upper-case
and a lower-case one. -/
def ChangesCase (cs : List Char) (i : Nat) : Prop :=
  ∃ previous c, 0 < i ∧ cs[i - 1]? = some previous ∧ cs[i]? = some c ∧ Text.isUppercase c = true ∧
    (Text.isLowercase previous = true ∨ previous.isDigit = true ∨
      Text.isUppercase previous = true ∧ ∃ next, cs[i + 1]? = some next ∧ Text.isLowercase next = true)

/-- The positions from `start` up to but excluding `stop`. -/
structure Span where
  start : Nat
  stop : Nat

namespace Span

def Holds (s : Span) (i : Nat) : Prop :=
  s.start ≤ i ∧ i < s.stop

/-- The characters of the text at the positions. -/
def word (cs : List Char) (s : Span) : List Char :=
  cs.extract s.start s.stop

end Span

/-- How words stand in a text. -/
structure Layout (cs : List Char) (spans : List Span) : Prop where
  filled : ∀ s ∈ spans, s.start < s.stop ∧ s.stop ≤ cs.length
  holds_iff : ∀ i, (∃ s ∈ spans, s.Holds i) ↔ i < cs.length ∧ ¬SeparatesAt cs i
  parted : spans.IsChain fun s t =>
    s.stop ≤ t.start ∧ (SeparatesAt cs s.stop ∨ s.stop = t.start ∧ ChangesCase cs t.start)
  whole : ∀ s ∈ spans, ∀ i, s.start < i → i < s.stop → ¬ChangesCase cs i

/-! ## Looking behind by position -/

/-- The character before a position. -/
def lookBehind? (cs : List Char) : Nat → Option Char
  | 0 => none
  | i + 1 => cs[i]?

/-- The words of the rest of a text from a position on, with the open word; none if they depend on a character before the
start. -/
def wordsAt? (cs : List Char) (i : Nat) (current : List Char) : List Char → Option (List (List Char))
  | [] => some (if current.isEmpty then [] else [current])
  | c :: rest =>
    if isSeparator c then
      if current.isEmpty then wordsAt? cs (i + 1) [] rest else (wordsAt? cs (i + 1) [] rest).map (current :: ·)
    else if Text.isUppercase c && !current.isEmpty then
      (lookBehind? cs i).bind fun previous =>
        if Text.isLowercase previous || previous.isDigit ||
            (Text.isUppercase previous && cs[i + 1]?.any Text.isLowercase) then
          (wordsAt? cs (i + 1) [c] rest).map (current :: ·)
        else wordsAt? cs (i + 1) (current ++ [c]) rest
    else wordsAt? cs (i + 1) (current ++ [c]) rest

def wordsByIndex? (cs : List Char) : Option (List (List Char)) :=
  wordsAt? cs 0 [] cs

section Index

variable {read current rest : List Char} {c previous : Char}

theorem getElem?_length_add (before rest : List Char) (k : Nat) : (before ++ rest)[before.length + k]? = rest[k]? := by
  rw [List.getElem?_append_right (Nat.le_add_right _ _), Nat.add_sub_cancel_left]

theorem getElem?_reverse_append (read rest : List Char) (k : Nat) :
    (read.reverse ++ rest)[read.length + k]? = rest[k]? := by
  rw [← List.length_reverse, getElem?_length_add]

/-- What has been read and the open word are in reverse here, and the open word is the last part of what has been read: so
there is a character before the position unless the word is empty. -/
theorem wordsAt?_eq (opened : current <+: read) :
    wordsAt? (read.reverse ++ rest) read.length current.reverse rest = some (wordsFrom current rest) := by
  induction rest generalizing read current with
  | nil =>
      cases current <;> simp [wordsAt?, wordsFrom]
  | cons c rest inductionHypothesis =>
      have text : (c :: read).reverse ++ rest = read.reverse ++ c :: rest := by
        simp
      have later {word : List Char} (opened : word <+: c :: read) :
          wordsAt? (read.reverse ++ c :: rest) (read.length + 1) word.reverse rest = some (wordsFrom word rest) := by
        rw [← text]
        exact inductionHypothesis opened
      have closed := later List.nil_prefix
      have fresh := later (List.prefix_append [c] read)
      have longer := later (List.prefix_cons_inj c |>.2 opened)
      cases current with
      | nil =>
          rw [wordsFrom_nil_cons, wordsAt?]
          by_cases separates : isSeparator c = true
          · simpa [separates] using closed
          · simpa [separates] using fresh
      | cons previous older =>
          obtain ⟨left, rfl⟩ := opened
          have behind : lookBehind? ((previous :: older ++ left).reverse ++ c :: rest) (previous :: older ++ left).length =
              some previous := by
            simpa [lookBehind?] using getElem?_reverse_append (older ++ left) (previous :: c :: rest) 0
          have ahead : ((previous :: older ++ left).reverse ++ c :: rest)[(previous :: older ++ left).length + 1]? =
              rest.head? := by
            rw [getElem?_reverse_append, List.getElem?_cons_succ, List.head?_eq_getElem?]
          rw [wordsFrom_cons_cons, wordsAt?, behind, ahead, breaksBefore, Option.bind_some]
          generalize (Text.isLowercase previous || previous.isDigit ||
            (Text.isUppercase previous && rest.head?.any Text.isLowercase)) = breaks
          by_cases separates : isSeparator c = true
          · simpa [separates] using closed
          by_cases upper : Text.isUppercase c = true
          · cases breaks with
            | false => simpa [separates, upper] using longer
            | true => simpa [separates, upper] using fresh
          · simpa [separates, upper] using longer

theorem wordsByIndex?_eq (name : String) : wordsByIndex? name.toList = some (words name) :=
  wordsAt?_eq (List.nil_prefix (l := []))

end Index

/-! ## Laying words out -/

/-- How spans are read off a text from a position on. -/
inductive Laid (cs : List Char) : Nat → List Span → Prop where
  | ended : Laid cs cs.length []
  | separator {i : Nat} {spans : List Span} : SeparatesAt cs i → Laid cs (i + 1) spans → Laid cs i spans
  | word {i j : Nat} {spans : List Span} : i < j → j ≤ cs.length → (∀ k, i ≤ k → k < j → ¬SeparatesAt cs k) →
      (∀ k, i < k → k < j → ¬ChangesCase cs k) → (j = cs.length ∨ SeparatesAt cs j ∨ ChangesCase cs j) →
      Laid cs j spans → Laid cs i (⟨i, j⟩ :: spans)

namespace Laid

variable {cs : List Char} {i k : Nat} {spans : List Span} {s : Span}

theorem bounds (laid : Laid cs i spans) (member : s ∈ spans) : i ≤ s.start ∧ s.start < s.stop ∧ s.stop ≤ cs.length := by
  induction laid with
  | ended =>
      cases member
  | separator _ _ inductionHypothesis =>
      have later := inductionHypothesis member
      omega
  | word filled inside _ _ _ _ inductionHypothesis =>
      rcases List.mem_cons.1 member with rfl | listed
      · exact ⟨Nat.le_refl _, filled, inside⟩
      · have later := inductionHypothesis listed
        omega

theorem start_eq (laid : Laid cs i (s :: spans)) (keeps : ¬SeparatesAt cs i) : s.start = i := by
  cases laid with
  | separator separates => exact absurd separates keeps
  | word => rfl

theorem holds_iff (laid : Laid cs i spans) (reached : i ≤ k) :
    (∃ s ∈ spans, s.Holds k) ↔ k < cs.length ∧ ¬SeparatesAt cs k := by
  induction laid with
  | ended =>
      simp [Nat.not_lt.2 reached]
  | @separator i spans separates later inductionHypothesis =>
      by_cases here : i = k
      · subst here
        constructor
        · rintro ⟨s, member, starts, -⟩
          have bound := (later.bounds member).1
          omega
        · rintro ⟨-, keeps⟩
          exact absurd separates keeps
      · exact inductionHypothesis (by omega)
  | @word i j spans filled inside keeps _ _ later inductionHypothesis =>
      simp only [List.mem_cons, exists_eq_or_imp]
      by_cases first : k < j
      · have holds : Span.Holds ⟨i, j⟩ k := ⟨reached, first⟩
        have within : k < cs.length := by omega
        simp [holds, within, keeps k reached first]
      · have passed : ¬Span.Holds ⟨i, j⟩ k := fun holds => first holds.2
        rw [or_iff_right passed]
        exact inductionHypothesis (Nat.not_lt.1 first)

theorem parted (laid : Laid cs i spans) :
    spans.IsChain fun s t =>
      s.stop ≤ t.start ∧ (SeparatesAt cs s.stop ∨ s.stop = t.start ∧ ChangesCase cs t.start) := by
  induction laid with
  | ended =>
      exact .nil
  | separator _ _ inductionHypothesis =>
      exact inductionHypothesis
  | @word i j spans _ _ _ _ ends later inductionHypothesis =>
      cases spans with
      | nil =>
          exact .singleton _
      | cons t spans =>
          have bound := later.bounds List.mem_cons_self
          refine .cons_cons ⟨bound.1, ?_⟩ inductionHypothesis
          by_cases separates : SeparatesAt cs j
          · exact .inl separates
          · have next := later.start_eq separates
            rcases ends with atEnd | separates' | changes
            · omega
            · exact absurd separates' separates
            · exact .inr ⟨next.symm, next.symm ▸ changes⟩

theorem whole (laid : Laid cs i spans) (member : s ∈ spans) (after : s.start < k) (within : k < s.stop) :
    ¬ChangesCase cs k := by
  induction laid with
  | ended =>
      cases member
  | separator _ _ inductionHypothesis =>
      exact inductionHypothesis member
  | word _ _ _ even _ _ inductionHypothesis =>
      rcases List.mem_cons.1 member with rfl | listed
      · exact even k after within
      · exact inductionHypothesis listed

theorem layout (laid : Laid cs 0 spans) : Layout cs spans where
  filled _ member := (laid.bounds member).2
  holds_iff _ := laid.holds_iff (Nat.zero_le _)
  parted := laid.parted
  whole _ member _ after within := laid.whole member after within

end Laid

section Words

variable {cs before current rest older : List Char} {c previous : Char} {spans : List Span}

theorem separatesAt_iff (before rest : List Char) (k : Nat) :
    SeparatesAt (before ++ rest) (before.length + k) ↔ ∃ c, rest[k]? = some c ∧ isSeparator c = true := by
  rw [SeparatesAt, getElem?_length_add]

/-- Within a text, a change of case is what ends a word. -/
theorem changesCase_iff (before : List Char) (previous c : Char) (rest : List Char) :
    ChangesCase (before ++ previous :: c :: rest) (before.length + 1) ↔ breaksBefore previous c rest.head? = true := by
  have behind := getElem?_length_add before (previous :: c :: rest) 0
  have here := getElem?_length_add before (previous :: c :: rest) 1
  have ahead := getElem?_length_add before (previous :: c :: rest) 2
  simp only [Nat.add_zero, List.getElem?_cons_zero, List.getElem?_cons_succ] at behind here ahead
  simp only [ChangesCase, Nat.add_sub_cancel, behind, here, ahead, breaksBefore, List.head?_eq_getElem?]
  simp [Option.any_eq_true, or_assoc]

/-- The open word, closed where the rest begins. -/
theorem Laid.close (text : cs = before ++ (current.reverse ++ rest)) (opened : current ≠ [])
    (kept : ∀ c ∈ current, isSeparator c = false)
    (even : ∀ k, before.length < k → k < before.length + current.length → ¬ChangesCase cs k)
    (ends : rest = [] ∨ SeparatesAt cs (before.length + current.length) ∨
      ChangesCase cs (before.length + current.length))
    (later : Laid cs (before.length + current.length) spans) :
    Laid cs before.length (⟨before.length, before.length + current.length⟩ :: spans) := by
  subst text
  have filled : 0 < current.length := List.length_pos_iff.2 opened
  refine .word (by omega) (by simp) ?_ even ?_ later
  · intro k first within separates
    obtain ⟨k, rfl⟩ := Nat.exists_eq_add_of_le first
    obtain ⟨c, found, isSep⟩ := (separatesAt_iff _ _ _).1 separates
    rw [List.getElem?_append_left (by rw [List.length_reverse]; omega)] at found
    rw [kept c (List.mem_reverse.1 (List.mem_of_getElem? found))] at isSep
    cases isSep
  · rcases ends with rfl | ends
    · exact .inl (by simp)
    · exact .inr ends

theorem word_close (text : cs = before ++ (current.reverse ++ rest)) :
    Span.word cs ⟨before.length, before.length + current.length⟩ = current.reverse := by
  subst text
  simp [Span.word]

/-- An open word that ends where the rest begins stands before the words of the rest. -/
theorem exists_laid_of_closed {others : List (List Char)} (text : cs = before ++ (current.reverse ++ rest))
    (opened : current ≠ []) (kept : ∀ c ∈ current, isSeparator c = false)
    (even : ∀ k, before.length < k → k < before.length + current.length → ¬ChangesCase cs k)
    (ends : rest = [] ∨ SeparatesAt cs (before.length + current.length) ∨
      ChangesCase cs (before.length + current.length))
    (later : ∃ spans, Laid cs (before.length + current.length) spans ∧ others = spans.map (Span.word cs)) :
    ∃ spans, Laid cs before.length spans ∧ current.reverse :: others = spans.map (Span.word cs) := by
  obtain ⟨spans, laid, rfl⟩ := later
  exact ⟨_, laid.close text opened kept even ends, by rw [List.map_cons, word_close text]⟩

/-- Wherever a text is read up to, its words from there on can be laid out, the open one first. -/
theorem exists_laid (text : cs = before ++ (current.reverse ++ rest)) (kept : ∀ c ∈ current, isSeparator c = false)
    (even : ∀ k, before.length < k → k < before.length + current.length → ¬ChangesCase cs k) :
    ∃ spans, Laid cs before.length spans ∧ wordsFrom current rest = spans.map (Span.word cs) := by
  induction rest generalizing before current with
  | nil =>
      have length : before.length + current.length = cs.length := by
        simp [text]
      have atEnd : Laid cs (before.length + current.length) [] := length ▸ .ended
      cases current with
      | nil =>
          exact ⟨[], atEnd, rfl⟩
      | cons previous older =>
          exact exists_laid_of_closed text (List.cons_ne_nil _ _) kept even (.inl rfl) ⟨[], atEnd, rfl⟩
  | cons c rest inductionHypothesis =>
      have here : ∀ k, cs[before.length + (current.length + k)]? = (c :: rest)[k]? := by
        intro k
        rw [text, getElem?_length_add, getElem?_reverse_append]
      have alone (before : List Char) (k : Nat) (after : before.length < k) (within : k < before.length + [c].length) :
          ¬ChangesCase cs k := by
        rw [List.length_singleton] at within
        omega
      by_cases separates : isSeparator c = true
      · have separatesAt : SeparatesAt cs (before.length + current.length) := ⟨c, here 0, separates⟩
        have later : ∃ spans, Laid cs (before.length + current.length) spans ∧
            wordsFrom [] rest = spans.map (Span.word cs) := by
          obtain ⟨spans, laid, same⟩ := @inductionHypothesis (before ++ current.reverse ++ [c]) [] (by simp [text])
            (List.forall_mem_nil _) (by simp; omega)
          rw [List.length_append, List.length_append, List.length_reverse, List.length_singleton] at laid
          exact ⟨spans, .separator separatesAt laid, same⟩
        cases current with
        | nil =>
            rw [wordsFrom_nil_cons, if_pos separates]
            exact later
        | cons previous older =>
            rw [wordsFrom_cons_cons, if_pos separates]
            exact exists_laid_of_closed text (List.cons_ne_nil _ _) kept even (.inr (.inl separatesAt)) later
      · have keeps : isSeparator c = false := by
          simpa using separates
        have keepsAlone : ∀ d ∈ [c], isSeparator d = false := List.forall_mem_singleton.2 keeps
        cases current with
        | nil =>
            rw [wordsFrom_nil_cons, if_neg separates]
            exact inductionHypothesis text keepsAlone (alone before)
        | cons previous older =>
            have changes : ChangesCase cs (before.length + (previous :: older).length) ↔
                breaksBefore previous c rest.head? = true := by
              rw [← changesCase_iff (before ++ older.reverse) previous c rest]
              simp [text, Nat.add_assoc]
            rw [wordsFrom_cons_cons, if_neg separates]
            by_cases breaks : breaksBefore previous c rest.head? = true
            · rw [if_pos breaks]
              have later := @inductionHypothesis (before ++ (previous :: older).reverse) [c] (by simp [text]) keepsAlone
                (alone _)
              rw [List.length_append, List.length_reverse] at later
              exact exists_laid_of_closed text (List.cons_ne_nil _ _) kept even (.inr (.inr (changes.2 breaks))) later
            · rw [if_neg breaks]
              refine @inductionHypothesis before (c :: previous :: older) (by simp [text])
                (List.forall_mem_cons.2 ⟨keeps, kept⟩) fun k after within => ?_
              by_cases last : k = before.length + (previous :: older).length
              · rwa [last, changes]
              · rw [List.length_cons] at within
                exact even k after (by omega)

end Words

/-- The words of a name are spans of it: none is empty, together they hold all characters but the separators in their order,
where two words meet there is a separator or a change of case, and no word has a change of case inside. To find them it is
never looked before the start. -/
theorem words_laid_out (name : String) :
    wordsByIndex? name.toList = some (words name) ∧
      (∀ word ∈ words name, word ≠ [] ∧ ∀ c ∈ word, isSeparator c = false) ∧
      (words name).flatten = (name.toList.filter fun c => !isSeparator c) ∧
      ∃ spans, words name = spans.map (Span.word name.toList) ∧ Layout name.toList spans := by
  obtain ⟨spans, laid, same⟩ :=
    @exists_laid name.toList [] [] name.toList rfl (List.forall_mem_nil _) (by simp)
  exact ⟨wordsByIndex?_eq name, fun word listed => ⟨ne_nil_of_mem_words listed, fun c => And.right ∘ mem_of_mem_word listed⟩,
    flatten_words name, spans, same, laid.layout⟩

example : (words "HTTPServer_port2Id").map String.ofList = ["HTTP", "Server", "port2", "Id"] := by decide

end SchemaRpc.Casing
