import SchemaRpc.Json.Printer
import SchemaRpc.Proofs.Decimal.Digits
import SchemaRpc.Proofs.Json.Parts

/-!
# Compact JSON stays on one line

Whatever the strings and keys of a value hold, its compact text has no character below U+0020 (`Json.visible_write`),
so it has no line break of any kind.
-/

namespace SchemaRpc

/-- No character is a control character of ASCII, such as a line break. -/
def Visible (text : List Char) : Prop :=
  ∀ c ∈ text, 32 ≤ c.toNat

namespace Visible

variable {c : Char} {text rest : List Char}

@[simp]
theorem nil : Visible [] :=
  List.forall_mem_nil _

@[simp]
theorem cons_iff : Visible (c :: text) ↔ 32 ≤ c.toNat ∧ Visible text :=
  List.forall_mem_cons

@[simp]
theorem append_iff : Visible (text ++ rest) ↔ Visible text ∧ Visible rest :=
  List.forall_mem_append

theorem replicate (count : Nat) (visible : 32 ≤ c.toNat) : Visible (List.replicate count c) := by
  intro other member
  rwa [List.eq_of_mem_replicate member]

theorem of_digits (digits : ∀ c ∈ text, c.isDigit = true) : Visible text := by
  intro c member
  have digit := digits c member
  rw [Char.isDigit, Bool.and_eq_true, decide_eq_true_eq] at digit
  exact Nat.le_trans (by decide) (UInt32.le_iff_toNat_le.mp digit.1)

theorem ne_lineFeed (visible : Visible text) : '\n' ∉ text := by
  intro member
  exact absurd (visible _ member) (by decide)

theorem ne_carriageReturn (visible : Visible text) : '\r' ∉ text := by
  intro member
  exact absurd (visible _ member) (by decide)

end Visible

/-! ## Numbers -/

theorem visible_natural (n : Nat) : Visible (toString n).toList := by
  have digits : (toString n).toList = Nat.toDigits 10 n := Nat.toList_repr
  rw [digits]
  exact .of_digits fun c member => Decimal.isDigit_toDigits member

theorem visible_integer (n : Int) : Visible (toString n).toList := by
  cases n with
  | ofNat n =>
      exact visible_natural n
  | negSucc n =>
      change Visible ("-" ++ toString (n + 1)).toList
      rw [String.toList_append]
      exact Visible.append_iff.mpr ⟨by simp, visible_natural _⟩

namespace NumberLayout

theorem visible_positional {digits : List Char} (visible : Visible digits) (point : Int) :
    Visible (positional digits point) := by
  have zeros (count : Nat) : Visible (List.replicate count '0') := .replicate count (by decide)
  unfold positional
  split
  · simp [visible, zeros]
  dsimp only
  split
  · simp [visible, zeros]
  · simp only [Visible.append_iff, Visible.cons_iff]
    exact ⟨fun c member => visible c (List.mem_of_mem_take member), by decide,
      fun c member => visible c (List.mem_of_mem_drop member)⟩

theorem visible_scientific {digits : List Char} (visible : Visible digits) (layout : NumberLayout)
    (mark : 32 ≤ layout.exponentMark.toNat) (point : Int) : Visible (layout.scientific digits point) := by
  have mantissa : ∀ first rest, digits = first :: rest → Visible (first :: '.' :: rest) := by
    rintro first rest rfl
    simpa using visible
  unfold scientific
  simp only [Visible.append_iff, Visible.cons_iff]
  refine ⟨⟨?_, mark, ?_⟩, visible_natural _⟩
  · split
    · exact .nil
    · exact visible
    · exact mantissa _ _ rfl
  · split
    · simp
    split <;> simp

theorem visible_write (layout : NumberLayout) (mark : 32 ≤ layout.exponentMark.toNat) (d : Decimal) :
    Visible (layout.write d) := by
  rw [write]
  generalize (if d.digits == 0 then 1 else ((toString d.digits).toList.length : Int) + d.exponent) = point
  split
  · exact visible_positional (visible_natural _) point
  · exact visible_scientific (visible_natural _) layout mark point

end NumberLayout

theorem Binary64.visible_jsonText (x : Binary64) : Visible x.jsonText := by
  have digits : Visible (NumberLayout.json.write x.shortest) := NumberLayout.visible_write _ (by decide) _
  unfold jsonText
  split
  · exact Visible.cons_iff.mpr ⟨by decide, digits⟩
  · exact digits

/-! ## Strings -/

theorem Text.visible_hexDigit {n : Nat} (small : n < 16) : 32 ≤ (hexDigit n).toNat := by
  revert n
  decide

namespace Json

/-- Each control character is escaped, by characters that are none. -/
theorem visible_escapeChar (c : Char) : Visible (escapeChar c) := by
  unfold escapeChar
  iterate 7
    split
    · simp
  split
  · next control =>
    have first : 32 ≤ (Text.hexDigit (c.toNat / 16)).toNat := Text.visible_hexDigit (by omega)
    have second : 32 ≤ (Text.hexDigit (c.toNat % 16)).toNat := Text.visible_hexDigit (by omega)
    simp [first, second]
  · next visible =>
    simpa using visible

theorem visible_writeString (s : String) : Visible (writeString s) := by
  have escaped : Visible (s.toList.flatMap escapeChar) := by
    intro c member
    obtain ⟨original, -, member⟩ := List.mem_flatMap.mp member
    exact visible_escapeChar original c member
  simp [writeString, escaped]

theorem visible_writeNumber (n : Number) : Visible (writeNumber n) := by
  cases n with
  | int n =>
      exact visible_integer n
  | float x =>
      exact x.visible_jsonText

/-! ## Values -/

theorem visible_writeItems {items : List Json} (each : ∀ item ∈ items, Visible item.write) :
    Visible (writeItems items) := by
  induction items with
  | nil =>
      exact .nil
  | cons item rest inductionHypothesis =>
      obtain ⟨head, tail⟩ := List.forall_mem_cons.mp each
      cases rest with
      | nil =>
          exact head
      | cons next rest =>
          simp [writeItems, head, inductionHypothesis tail]

theorem visible_writeMembers {members : Members} (each : ∀ part ∈ members.map Prod.snd, Visible part.write) :
    Visible (writeMembers members) := by
  induction members with
  | nil =>
      exact .nil
  | cons member rest inductionHypothesis =>
      obtain ⟨key, value⟩ := member
      obtain ⟨head, tail⟩ := List.forall_mem_cons.mp each
      cases rest with
      | nil =>
          simp [writeMembers, visible_writeString, head]
      | cons next rest =>
          simp [writeMembers, visible_writeString, head, inductionHypothesis tail]

theorem visible_write (json : Json) : Visible json.write := by
  induction json using induct with
  | step json each =>
    cases json with
    | null =>
        simp [write]
    | bool b =>
        cases b <;> simp [write]
    | num n =>
        exact visible_writeNumber n
    | str s =>
        exact visible_writeString s
    | arr items =>
        have written : Visible (writeItems items) := visible_writeItems each
        simp [write, written]
    | obj members =>
        have written : Visible (writeMembers members) := visible_writeMembers each
        simp [write, written]

theorem visible_compress (json : Json) : Visible json.compress.toList := by
  rw [compress, String.toList_ofList]
  exact json.visible_write

end Json

end SchemaRpc
