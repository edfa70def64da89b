import SchemaRpc.Json.Printer
import SchemaRpc.Proofs.Decimal.Digits
import SchemaRpc.Proofs.Json.Parts
import SchemaRpc.Proofs.Json.Scaling

/-!
# Written numbers can be read

An integer of sixty-four bits is read back as itself, and the text of a finite double is read as some double: the reader
rounds twice, so it need not be the same one. `rereadNumber` is what is read, and `readsAs_writeNumber` says that it
is, whatever follows the number in a text.
-/

namespace SchemaRpc.Json

/-! ## Digits -/

section Digits

variable {digits rest : List Char}

/-- A text does not go on with a digit. -/
def Stops (rest : List Char) : Prop :=
  rest.head?.any Char.isDigit = false

theorem takeWhile_digits (allDigits : ∀ c ∈ digits, c.isDigit = true) (stops : Stops rest) :
    (digits ++ rest).takeWhile Char.isDigit = digits := by
  rw [List.takeWhile_append_of_pos allDigits]
  cases rest with
  | nil =>
      simp
  | cons c rest =>
      have other : c.isDigit = false := stops
      simp [other]

theorem dropWhile_digits (allDigits : ∀ c ∈ digits, c.isDigit = true) (stops : Stops rest) :
    (digits ++ rest).dropWhile Char.isDigit = rest := by
  rw [List.dropWhile_append_of_pos allDigits]
  cases rest with
  | nil =>
      rfl
  | cons c rest =>
      have other : c.isDigit = false := stops
      simp [other]

theorem le_ofDigitChars (digits : List Char) (n : Nat) : n ≤ Nat.ofDigitChars 10 digits n := by
  rw [Nat.ofDigitChars_eq_ofDigitChars_zero]
  have : n ≤ 10 ^ digits.length * n := Nat.le_mul_of_pos_left n (Nat.pow_pos (by decide))
  omega

theorem digit_le {c : Char} (digit : c.isDigit = true) : c.toNat - 0x30 ≤ 9 := by
  rw [Char.isDigit, Bool.and_eq_true, decide_eq_true_eq, decide_eq_true_eq] at digit
  have most : c.toNat ≤ 0x39 := UInt32.le_iff_toNat_le.mp digit.2
  omega

/-- Digits go into the coefficient from the front as long as it fits: the first one if there is room for it, and all if
they fit together. -/
theorem exists_collectDigits (allDigits : ∀ c ∈ digits, c.isDigit = true) (coefficient taken : Nat) :
    ∃ front back, front ++ back = digits ∧
      (∀ rest, Stops rest → collectDigits coefficient taken (digits ++ rest) =
        (Nat.ofDigitChars 10 front coefficient, taken + front.length, back ++ rest)) ∧
      (10 * coefficient + 9 ≤ maxCoefficient → digits ≠ [] → front ≠ []) ∧
      (Nat.ofDigitChars 10 digits coefficient ≤ maxCoefficient → back = []) := by
  induction digits generalizing coefficient taken with
  | nil =>
      refine ⟨[], [], rfl, fun rest stops => ?_, fun _ => id, fun _ => rfl⟩
      cases rest with
      | nil =>
          rfl
      | cons c rest =>
          have other : c.isDigit = false := stops
          simp [collectDigits, other]
  | cons c digits inductionHypothesis =>
      obtain ⟨digit, others⟩ := List.forall_mem_cons.mp allDigits
      by_cases fits : 10 * coefficient + (c.toNat - 0x30) ≤ maxCoefficient
      · obtain ⟨front, back, parts, collected, -, whole⟩ :=
          inductionHypothesis others (10 * coefficient + (c.toNat - 0x30)) (taken + 1)
        refine ⟨c :: front, back, by rw [List.cons_append, parts], fun rest stops => ?_,
          fun _ _ => List.cons_ne_nil _ _, whole⟩
        rw [List.cons_append, collectDigits]
        simp only [digit, fits, decide_true, Bool.and_self, if_true, collected rest stops]
        rw [List.length_cons, Nat.add_comm front.length, Nat.add_assoc]
        rfl
      · refine ⟨[], c :: digits, rfl, fun rest _ => ?_, fun room => ?_, fun small => ?_⟩
        · rw [List.cons_append, collectDigits]
          simp [fits]
        · have small := digit_le digit
          exact absurd (by omega) fits
        · exact absurd (Nat.le_trans (le_ofDigitChars digits _) small) fits

theorem collectDigits_of_le (allDigits : ∀ c ∈ digits, c.isDigit = true) (stops : Stops rest)
    {coefficient : Nat} (taken : Nat) (small : Nat.ofDigitChars 10 digits coefficient ≤ maxCoefficient) :
    collectDigits coefficient taken (digits ++ rest) =
      (Nat.ofDigitChars 10 digits coefficient, taken + digits.length, rest) := by
  obtain ⟨front, back, parts, collected, -, whole⟩ := exists_collectDigits allDigits coefficient taken
  obtain rfl := whole small
  rw [List.append_nil] at parts
  rw [collected rest stops, parts, List.nil_append]

/-- A sign is written before negative numbers only. -/
def sign (negative : Bool) : List Char :=
  if negative then ['-'] else []

theorem ne_of_isDigit {c other : Char} (digit : c.isDigit = true) (noDigit : other.isDigit = false) : c ≠ other := by
  rintro rfl
  rw [digit] at noDigit
  cases noDigit

/-- The digits before the point are the coefficient when they fit. A zero stands alone there. -/
theorem readNumber?_whole (negative : Bool) (allDigits : ∀ c ∈ digits, c.isDigit = true) (first : digits ≠ [])
    (lead : digits.head? = some '0' → digits = ['0']) {coefficient : Nat}
    (value : Nat.ofDigitChars 10 digits 0 = coefficient) (small : coefficient ≤ maxCoefficient) (stops : Stops rest) :
    readNumber? (sign negative ++ digits ++ rest) =
      if !hasTail rest then
        if !negative then some (.int coefficient, rest)
        else if coefficient == 0 || coefficient > 2 ^ 63 then some (.float (Binary64.ofRatio true coefficient 1), rest)
        else some (.int (-coefficient), rest)
      else readTail? negative coefficient 0 rest := by
  obtain ⟨c, others, rfl⟩ := List.exists_cons_of_ne_nil first
  have digit : c.isDigit = true := allDigits c List.mem_cons_self
  obtain ⟨count, collected⟩ : ∃ count,
      (if c == '0' then (0, 1, others ++ rest) else collectDigits 0 0 (c :: (others ++ rest))) =
        (coefficient, count, rest) := by
    split
    · next zero =>
      rw [beq_iff_eq] at zero
      subst zero
      obtain ⟨-, rfl⟩ := List.cons.inj (lead rfl)
      exact ⟨1, congrArg (·, 1, rest) value⟩
    · have whole := collectDigits_of_le allDigits stops 0 (value.le.trans small)
      rw [value] at whole
      exact ⟨_, whole⟩
  have alone : (c == '0' && (others ++ rest).head?.any Char.isDigit) = false := by
    by_cases zero : c = '0'
    · subst zero
      obtain ⟨-, rfl⟩ := List.cons.inj (lead rfl)
      exact stops
    · simp [zero]
  have taken : rest.takeWhile Char.isDigit = [] := @takeWhile_digits [] rest (List.forall_mem_nil _) stops
  have left : rest.dropWhile Char.isDigit = rest := @dropWhile_digits [] rest (List.forall_mem_nil _) stops
  unfold readNumber?
  split
  next sign body parts =>
    obtain ⟨rfl, rfl⟩ : negative = sign ∧ c :: (others ++ rest) = body := by
      cases negative
      · split at parts
        · next minus =>
          exact absurd (List.cons.inj minus).1 (ne_of_isDigit digit (by decide))
        · cases parts
          exact ⟨rfl, rfl⟩
      · cases parts
        exact ⟨rfl, rfl⟩
    simp only [digit, alone, Bool.not_true, Bool.false_eq_true, if_false]
    rw [collected]
    simp only [taken, left, List.length_nil, beq_self_eq_true, Bool.true_and]

/-- No digits are written before the first one that counts. -/
theorem head?_toDigits {n : Nat} (zero : (Nat.toDigits 10 n).head? = some '0') : Nat.toDigits 10 n = ['0'] := by
  induction n using Nat.strongRecOn with
  | ind n inductionHypothesis =>
    rw [Nat.toDigits_eq_if (by decide)] at zero ⊢
    split at zero
    · next small =>
      rw [if_pos small]
      exact congrArg (fun c => [c]) (Option.some.inj zero)
    · next large =>
      rw [List.head?_append_of_ne_nil _ Nat.toDigits_ne_nil] at zero
      have none := inductionHypothesis (n / 10) (by omega) zero
      have value := Decimal.digitsValue_toDigits (n / 10)
      rw [none] at value
      have : n / 10 = 0 := value.symm
      omega

theorem allDigits_toDigits (n : Nat) : ∀ c ∈ Nat.toDigits 10 n, c.isDigit = true :=
  fun _ member => Decimal.isDigit_toDigits member

/-! ## Integers -/

/-- What follows a value in a text: nothing, a separator or a closing bracket. -/
def Follows : List Char → Prop
  | [] => True
  | c :: _ => c = ',' ∨ c = ']' ∨ c = '\x7d'

theorem Follows.stops (follows : Follows rest) : Stops rest := by
  cases rest with
  | nil =>
      rfl
  | cons c rest =>
      rcases follows with rfl | rfl | rfl <;> rfl

theorem Follows.hasTail_eq_false (follows : Follows rest) : hasTail rest = false := by
  cases rest with
  | nil =>
      rfl
  | cons c rest =>
      rcases follows with rfl | rfl | rfl <;> rfl

theorem toList_toString (n : Int) : (toString n).toList = sign (n < 0) ++ Nat.toDigits 10 n.natAbs := by
  cases n with
  | ofNat n =>
      have digits : (toString n).toList = Nat.toDigits 10 n := Nat.toList_repr
      have positive : ¬(Int.ofNat n < 0) := by
        simp
      simp only [sign, positive, decide_false, Bool.false_eq_true, if_false, List.nil_append]
      exact digits
  | negSucc n =>
      have digits : (toString (n + 1)).toList = Nat.toDigits 10 (n + 1) := Nat.toList_repr
      change ("-" ++ toString (n + 1)).toList = _
      rw [String.toList_append, digits]
      simp [sign, Int.negSucc_lt_zero]

theorem readNumber?_toString {n : Int} (least : -2 ^ 63 ≤ n) (most : n < 2 ^ 64) (follows : Follows rest) :
    readNumber? ((toString n).toList ++ rest) = some (.int n, rest) := by
  rw [toList_toString, readNumber?_whole _ (allDigits_toDigits _) Nat.toDigits_ne_nil head?_toDigits
    Nat.ofDigitChars_ten_toDigits (by rw [maxCoefficient]; omega) follows.stops, follows.hasTail_eq_false]
  rcases Int.lt_or_le n 0 with negative | positive
  · have nonzero : (n.natAbs == 0) = false := by
      rw [beq_eq_false_iff_ne]
      omega
    have large : ¬n.natAbs > 2 ^ 63 := by
      omega
    have same : -(n.natAbs : Int) = n := by
      omega
    simp only [negative, nonzero, large, same, decide_true, decide_false, Bool.not_true, Bool.not_false,
      Bool.false_eq_true, Bool.or_self, if_true, if_false]
  · have same : (n.natAbs : Int) = n := by
      omega
    simp only [Int.not_lt.mpr positive, same, decide_false, Bool.not_false, if_true]

/-! ## Fractions and exponents -/

theorem stops_cons {c : Char} (other : c.isDigit = false) (rest : List Char) : Stops (c :: rest) :=
  other

/-- What a text gives when it starts with a number that is read as this one, whatever follows. -/
def ReadsAs (text : List Char) (n : Number) : Prop :=
  ∀ rest, Follows rest → readNumber? (text ++ rest) = some (n, rest)

/-- A fraction: digits that do not fit into the coefficient are passed over. -/
theorem readTail?_fraction (negative : Bool) (coefficient : Nat) (allDigits : ∀ c ∈ digits, c.isDigit = true)
    (nonempty : digits ≠ []) :
    ∃ front back, front ++ back = digits ∧
      (Nat.ofDigitChars 10 digits coefficient ≤ maxCoefficient → back = []) ∧
      (10 * coefficient + 9 ≤ maxCoefficient → front ≠ []) ∧
      (∀ rest, Follows rest → readTail? negative coefficient 0 ('.' :: (digits ++ rest)) =
        (scaled? negative (Nat.ofDigitChars 10 front coefficient) (-(front.length : Int))).map (·, rest)) ∧
      ∀ tail, readTail? negative coefficient 0 ('.' :: (digits ++ 'e' :: tail)) =
        readExponent? negative (Nat.ofDigitChars 10 front coefficient) (-(front.length : Int)) tail := by
  obtain ⟨c, others, rfl⟩ := List.exists_cons_of_ne_nil nonempty
  have digit : c.isDigit = true := allDigits c List.mem_cons_self
  obtain ⟨front, back, parts, collected, room, whole⟩ := exists_collectDigits allDigits coefficient 0
  have backDigits : ∀ c ∈ back, c.isDigit = true := fun c member =>
    allDigits c (parts ▸ List.mem_append_right front member)
  have starts (rest : List Char) : (c :: others ++ rest).head?.any Char.isDigit = true := digit
  have shift : ((0 : Nat) : Int) - ((0 + front.length : Nat) : Int) = -(front.length : Int) := by
    omega
  refine ⟨front, back, parts, whole, fun fits => room fits nonempty, fun rest follows => ?_, fun tail => ?_⟩
  · unfold readTail?
    simp only [starts, if_true, collected rest follows.stops, dropWhile_digits backDigits follows.stops, shift]
    cases rest with
    | nil =>
        rfl
    | cons c rest =>
        rcases follows with rfl | rfl | rfl <;> rfl
  · have stops : Stops ('e' :: tail) := stops_cons (by decide) tail
    unfold readTail?
    simp only [starts, if_true, collected _ stops, dropWhile_digits backDigits stops, shift]
    rfl

theorem ofDigitChars_lt (allDigits : ∀ c ∈ digits, c.isDigit = true) :
    Nat.ofDigitChars 10 digits 0 < 10 ^ digits.length := by
  induction digits with
  | nil =>
      decide
  | cons c digits inductionHypothesis =>
      obtain ⟨digit, others⟩ := List.forall_mem_cons.mp allDigits
      have most : c.toNat - 0x30 ≤ 9 := digit_le digit
      have rest := inductionHypothesis others
      rw [Nat.ofDigitChars_cons, Nat.ofDigitChars_eq_ofDigitChars_zero, List.length_cons, Nat.pow_succ]
      have first : 10 ^ digits.length * (10 * 0 + (c.toNat - '0'.toNat)) ≤ 10 ^ digits.length * 9 :=
        Nat.mul_le_mul_left _ (by simpa using most)
      omega

/-- A positional text: its coefficient has a digit of the fraction, so the exponent is negative. -/
theorem exists_readsAs_point (negative : Bool) (whole fraction : List Char) (wholeDigits : ∀ c ∈ whole, c.isDigit = true)
    (nonempty : whole ≠ []) (lead : whole.head? = some '0' → whole = ['0']) (short : whole.length ≤ 16)
    (fractionDigits : ∀ c ∈ fraction, c.isDigit = true) (fractional : fraction ≠ []) :
    ∃ n, ReadsAs (sign negative ++ (whole ++ '.' :: fraction)) n := by
  have small : Nat.ofDigitChars 10 whole 0 < 10 ^ 16 :=
    Nat.lt_of_lt_of_le (ofDigitChars_lt wholeDigits) (Nat.pow_le_pow_right (by decide) short)
  have room : 10 * Nat.ofDigitChars 10 whole 0 + 9 ≤ maxCoefficient := by
    rw [maxCoefficient]
    omega
  obtain ⟨front, back, -, -, taken, read, -⟩ :=
    readTail?_fraction negative (Nat.ofDigitChars 10 whole 0) fractionDigits fractional
  have negativeExponent : -(front.length : Int) < 0 := by
    have := List.length_pos_iff.mpr (taken room)
    omega
  obtain ⟨n, scaled⟩ := Option.isSome_iff_exists.mp
    (isSome_scaled?_of_neg negative (Nat.ofDigitChars 10 front (Nat.ofDigitChars 10 whole 0)) negativeExponent)
  refine ⟨n, fun rest follows => ?_⟩
  have parts : sign negative ++ (whole ++ '.' :: fraction) ++ rest =
      sign negative ++ whole ++ ('.' :: (fraction ++ rest)) := by
    simp
  have stops : Stops ('.' :: (fraction ++ rest)) := stops_cons (by decide) _
  rw [parts, readNumber?_whole negative wholeDigits nonempty lead rfl (by omega) stops]
  simp only [hasTail, beq_self_eq_true, Bool.true_or, Bool.not_true, Bool.false_eq_true, if_false]
  rw [read rest follows, scaled]
  rfl

theorem exists_readExponent?_down (negative : Bool) (coefficient : Nat) {e : Nat} {shift : Int} (below : shift < e) :
    ∃ n, ∀ rest, Stops rest →
      readExponent? negative coefficient shift ('-' :: (Nat.toDigits 10 e ++ rest)) = some (n, rest) := by
  have nonempty : (Nat.toDigits 10 e).isEmpty = false := List.isEmpty_eq_false_iff.mpr Nat.toDigits_ne_nil
  have negativeExponent : shift - e < 0 := by
    omega
  obtain ⟨n, scaled⟩ := Option.isSome_iff_exists.mp (isSome_scaled?_of_neg negative coefficient negativeExponent)
  refine ⟨if e > maxExponent then .float (Binary64.ofMagnitude negative 0) else n, fun rest stops => ?_⟩
  unfold readExponent?
  simp only [takeWhile_digits (allDigits_toDigits e) stops, dropWhile_digits (allDigits_toDigits e) stops,
    Decimal.digitsValue_toDigits, nonempty]
  by_cases large : e > maxExponent
  · simp [large]
  · simp [large, scaled]

theorem readExponent?_up (negative : Bool) (coefficient : Nat) {e : Nat} (shift : Int) (small : e ≤ maxExponent)
    (stops : Stops rest) :
    readExponent? negative coefficient shift ('+' :: (Nat.toDigits 10 e ++ rest)) =
      (scaled? negative coefficient (shift + e)).map (·, rest) := by
  have nonempty : (Nat.toDigits 10 e).isEmpty = false := List.isEmpty_eq_false_iff.mpr Nat.toDigits_ne_nil
  unfold readExponent?
  simp only [takeWhile_digits (allDigits_toDigits e) stops, dropWhile_digits (allDigits_toDigits e) stops,
    Decimal.digitsValue_toDigits, nonempty, Nat.not_lt.mpr small, Bool.false_eq_true, if_false]

/-- The digits of a scientific text without the point that may stand after the first of them. -/
def mantissa : List Char → List Char
  | [] => []
  | [d] => [d]
  | d :: rest => d :: '.' :: rest

/-- A scientific text up to its exponent. -/
theorem readNumber?_mantissa (negative : Bool) {d : Char} {more : List Char}
    (allDigits : ∀ c ∈ d :: more, c.isDigit = true) (nonzero : d ≠ '0') :
    ∃ front back, front ++ back = more ∧
      (Nat.ofDigitChars 10 (d :: more) 0 ≤ maxCoefficient → back = []) ∧
      ∀ tail, readNumber? (sign negative ++ (mantissa (d :: more) ++ 'e' :: tail)) =
        readExponent? negative (Nat.ofDigitChars 10 (d :: front) 0) (-(front.length : Int)) tail := by
  obtain ⟨digit, others⟩ := List.forall_mem_cons.mp allDigits
  have single : ∀ c ∈ [d], c.isDigit = true := List.forall_mem_singleton.mpr digit
  have small : Nat.ofDigitChars 10 [d] 0 ≤ maxCoefficient := by
    have := ofDigitChars_lt single
    rw [maxCoefficient]
    simp only [List.length_singleton] at this
    omega
  have lead : [d].head? = some '0' → [d] = ['0'] := fun zero => absurd (Option.some.inj zero) nonzero
  have whole {rest : List Char} (stops : Stops rest) :=
    readNumber?_whole negative single (List.cons_ne_nil _ _) lead rfl small stops
  simp only [List.append_assoc] at whole
  cases more with
  | nil =>
      refine ⟨[], [], rfl, fun _ => rfl, fun tail => ?_⟩
      exact whole (stops_cons (by decide) tail)
  | cons next more =>
      obtain ⟨front, back, parts, fits, -, -, read⟩ :=
        readTail?_fraction negative (Nat.ofDigitChars 10 [d] 0) others (List.cons_ne_nil _ _)
      refine ⟨front, back, parts, fits, fun tail => ?_⟩
      exact (whole (stops_cons (by decide) _)).trans (read tail)

/-! ## Doubles -/

theorem scientific_cons (d : Char) (more : List Char) (point : Int) :
    NumberLayout.json.scientific (d :: more) point =
      mantissa (d :: more) ++ 'e' :: (if point - 1 < 0 then '-' else '+') :: Nat.toDigits 10 (point - 1).natAbs := by
  have digits : (toString (point - 1).natAbs).toList = Nat.toDigits 10 (point - 1).natAbs := Nat.toList_repr
  unfold NumberLayout.scientific
  dsimp only
  rw [digits]
  cases more <;> by_cases down : point - 1 < 0 <;> simp [mantissa, NumberLayout.json, down]

theorem ten_pow_le_of_toDigits {n : Nat} {first : Char} {more : List Char} (positive : n ≠ 0)
    (written : Nat.toDigits 10 n = first :: more) : 10 ^ more.length ≤ n := by
  rcases Nat.eq_zero_or_pos more.length with none | some
  · rw [none]
    exact Nat.one_le_iff_ne_zero.mpr positive
  · refine Nat.not_lt.mp fun small => ?_
    have short := (Nat.length_toDigits_le_iff (by decide) some).mpr small
    rw [written, List.length_cons] at short
    omega

namespace Scales

variable {d : Decimal}

/-- The exponent of the scientific text is one that the reader takes as it is written. -/
theorem exponent_lt (scales : Scales d) (positive : d.digits ≠ 0) {first : Char} {more : List Char}
    (written : Nat.toDigits 10 d.digits = first :: more) : (more.length : Int) + d.exponent < 309 := by
  have powers : (10 : ℚ) ^ ((more.length : Int) + d.exponent) < 10 ^ (309 : Int) := by
    calc
      (10 : ℚ) ^ ((more.length : Int) + d.exponent) = (10 ^ more.length : Nat) * 10 ^ d.exponent := by
        rw [zpow_add₀ (by norm_num), zpow_natCast]
        norm_cast
      _ ≤ d.value := by
        rw [Decimal.value]
        gcongr
        exact ten_pow_le_of_toDigits positive written
      _ < 10 ^ (309 : Int) := scales.below
  exact (zpow_lt_zpow_iff_right₀ (by norm_num)).mp powers

/-- Digits that the reader passes over make the number no greater. -/
theorem isSome_front (scales : Scales d) (negative : Bool) {front back : List Char}
    (kept : Nat.ofDigitChars 10 (front ++ back) 0 = d.digits) (fits : d.digits ≤ maxCoefficient → back = []) :
    (scaled? negative (Nat.ofDigitChars 10 front 0) (back.length + d.exponent)).isSome = true := by
  refine scales.isSome _ _ _ ?_ fun whole => ?_
  · calc
      (Nat.ofDigitChars 10 front 0 : ℚ) * 10 ^ (back.length + d.exponent)
          = (Nat.ofDigitChars 10 front 0 * 10 ^ back.length : Nat) * 10 ^ d.exponent := by
        rw [zpow_add₀ (by norm_num), zpow_natCast, ← mul_assoc]
        norm_cast
      _ ≤ d.value := by
        rw [Decimal.value]
        gcongr
        rw [← kept, Nat.ofDigitChars_append, @Nat.ofDigitChars_eq_ofDigitChars_zero back, Nat.mul_comm]
        exact Nat.le_add_right _ _
  · obtain rfl := fits whole
    rw [List.append_nil] at kept
    exact ⟨kept, by simp⟩

end Scales

theorem exists_readsAs_scientific (negative : Bool) {d : Decimal} (positive : d.digits ≠ 0) (scales : Scales d) :
    ∃ n, ReadsAs (sign negative ++ NumberLayout.json.scientific (Nat.toDigits 10 d.digits)
      ((Nat.toDigits 10 d.digits).length + d.exponent)) n := by
  obtain ⟨first, more, written⟩ := List.exists_cons_of_ne_nil (@Nat.toDigits_ne_nil d.digits 10)
  have value : Nat.ofDigitChars 10 (first :: more) 0 = d.digits := written ▸ Nat.ofDigitChars_ten_toDigits
  have nonzero : first ≠ '0' := by
    rintro rfl
    have single := @head?_toDigits d.digits (by rw [written]; rfl)
    rw [written] at single
    rw [single] at value
    exact positive value.symm
  have point : ((first :: more).length : Int) + d.exponent - 1 = more.length + d.exponent := by
    rw [List.length_cons]
    omega
  obtain ⟨front, back, parts, fits, read⟩ :=
    readNumber?_mantissa negative (written ▸ allDigits_toDigits d.digits) nonzero
  have counts : (front.length : Int) + back.length = more.length := by
    rw [← parts, List.length_append]
    omega
  have text (c : Char) (digits rest : List Char) :
      sign negative ++ (mantissa (first :: more) ++ 'e' :: c :: digits) ++ rest =
        sign negative ++ (mantissa (first :: more) ++ 'e' :: (c :: (digits ++ rest))) := by
    simp
  rw [written, scientific_cons, point]
  split
  · obtain ⟨n, down⟩ := exists_readExponent?_down negative (Nat.ofDigitChars 10 (first :: front) 0)
      (show -(front.length : Int) < ((more.length : Int) + d.exponent).natAbs by omega)
    refine ⟨n, fun rest follows => ?_⟩
    rw [text, read, down rest follows.stops]
  · next up =>
    have small : ((more.length : Int) + d.exponent).natAbs ≤ maxExponent := by
      have below := scales.exponent_lt positive written
      rw [maxExponent]
      omega
    have shift : -(front.length : Int) + (((more.length : Int) + d.exponent).natAbs : Nat) = back.length + d.exponent := by
      omega
    have kept : Nat.ofDigitChars 10 ((first :: front) ++ back) 0 = d.digits := by
      rw [List.cons_append, parts, value]
    obtain ⟨n, scaled⟩ := Option.isSome_iff_exists.mp
      (scales.isSome_front negative kept fun whole => fits (value ▸ whole))
    refine ⟨n, fun rest follows => ?_⟩
    rw [text, read, readExponent?_up _ _ _ small follows.stops, shift, scaled]
    rfl

/-- Digits with a point among or beside them. A leading zero stands alone before the point. -/
theorem exists_readsAs_positional (negative : Bool) {point : Int} (allDigits : ∀ c ∈ digits, c.isDigit = true)
    (first : digits ≠ []) (lead : digits.head? = some '0' → digits = ['0'] ∧ point = 1) (most : point ≤ 16) :
    ∃ n, ReadsAs (sign negative ++ NumberLayout.positional digits point) n := by
  have zero : ∀ c ∈ ['0'], c.isDigit = true := List.forall_mem_singleton.mpr rfl
  have zeros (count : Nat) : ∀ c ∈ List.replicate count '0', c.isDigit = true := by
    intro c member
    rw [List.eq_of_mem_replicate member]
    rfl
  unfold NumberLayout.positional
  dsimp only
  split
  · have read := exists_readsAs_point negative ['0'] (List.replicate (-point).toNat '0' ++ digits) zero
      (List.cons_ne_nil _ _) (fun _ => rfl) (by decide) (List.forall_mem_append.mpr ⟨zeros _, allDigits⟩)
      (fun none => first (List.append_eq_nil_iff.mp none).2)
    simpa using read
  split
  · next positive whole =>
    have padded : digits ++ List.replicate (point - digits.length).toNat '0' ≠ [] :=
      fun none => first (List.append_eq_nil_iff.mp none).1
    have single : (digits ++ List.replicate (point - digits.length).toNat '0').head? = some '0' →
        digits ++ List.replicate (point - digits.length).toNat '0' = ['0'] := by
      intro leading
      rw [List.head?_append_of_ne_nil _ first] at leading
      obtain ⟨rfl, rfl⟩ := lead leading
      rfl
    have short : (digits ++ List.replicate (point - digits.length).toNat '0').length ≤ 16 := by
      rw [List.length_append, List.length_replicate]
      omega
    have read := exists_readsAs_point negative _ ['0'] (List.forall_mem_append.mpr ⟨allDigits, zeros _⟩) padded single
      short zero (List.cons_ne_nil _ _)
    simpa using read
  · next positive short =>
    have beginning : digits.take point.toNat ≠ [] := by
      rw [Ne, List.take_eq_nil_iff, not_or]
      exact ⟨by omega, first⟩
    have single : (digits.take point.toNat).head? = some '0' → digits.take point.toNat = ['0'] := by
      intro leading
      rw [List.head?_take, if_neg (by omega)] at leading
      obtain ⟨rfl, rfl⟩ := lead leading
      rfl
    have short : (digits.take point.toNat).length ≤ 16 := by
      rw [List.length_take]
      omega
    have ending : digits.drop point.toNat ≠ [] := by
      rw [Ne, List.drop_eq_nil_iff]
      omega
    exact exists_readsAs_point negative _ _ (fun c member => allDigits c (List.mem_of_mem_take member)) beginning single
      short (fun c member => allDigits c (List.mem_of_mem_drop member)) ending

theorem exists_readsAs_write (negative : Bool) {d : Decimal} (scales : Scales d) :
    ∃ n, ReadsAs (sign negative ++ NumberLayout.json.write d) n := by
  have written : (toString d.digits).toList = Nat.toDigits 10 d.digits := Nat.toList_repr
  unfold NumberLayout.write
  rw [written]
  dsimp only
  by_cases zero : d.digits = 0
  · rw [zero, Nat.toDigits_zero]
    exact exists_readsAs_positional negative (List.forall_mem_singleton.mpr rfl) (List.cons_ne_nil _ _)
      (fun _ => ⟨rfl, rfl⟩) (by decide)
  · have nonzero : (d.digits == 0) = false := beq_eq_false_iff_ne.mpr zero
    rw [nonzero]
    simp only [Bool.false_eq_true, if_false]
    split
    · next near =>
      rw [Bool.and_eq_true, decide_eq_true_eq, decide_eq_true_eq] at near
      refine exists_readsAs_positional negative (allDigits_toDigits _) Nat.toDigits_ne_nil (fun leading => ?_) near.2
      have value := Decimal.digitsValue_toDigits d.digits
      rw [head?_toDigits leading] at value
      exact absurd value.symm zero
    · exact exists_readsAs_scientific negative zero scales

end Digits

/-- What is read where a number is written. -/
def rereadNumber : Number → Number
  | .int n => .int n
  | .float x => ((readNumber? x.jsonText).map Prod.fst).getD (.float x)

/-- A number that is kept in JSON is written so that a number is read, whatever follows. -/
theorem readsAs_writeNumber {n : Number} (stored : (num n).Stored) : ReadsAs (writeNumber n) (rereadNumber n) := by
  cases n with
  | int n =>
      exact fun rest follows => readNumber?_toString stored.1 stored.2 follows
  | float x =>
      have text : x.jsonText = sign x.isNegative ++ NumberLayout.json.write x.shortest := by
        unfold Binary64.jsonText sign
        cases x.isNegative <;> rfl
      obtain ⟨n, reads⟩ := exists_readsAs_write x.isNegative (scales_shortest stored)
      rw [← text] at reads
      have alone : readNumber? x.jsonText = some (n, []) := by
        simpa using reads [] trivial
      rw [rereadNumber, alone]
      exact reads

end SchemaRpc.Json
