import SchemaRpc.Casing

/-!
# Names in a row

PascalCase forms that stand one right after the other do not show where one ends: those of `user_name`, and of `user` and
`name`, are the same row. Names are `Legible` where no form goes on from another with a capital, and of such names a row
shows which they are (`Legible.path_eq`).
-/

namespace SchemaRpc.Casing

def pascalChars (name : String) : List Char :=
  (pascalCase name).toList

/-- Names whose forms can be told apart in a row: each begins with a capital, and where one begins another, the other goes
on, and not with a capital. -/
structure Legible (capital : Char → Bool) (names : String → Prop) : Prop where
  begins : ∀ name, names name → (pascalChars name).head?.any capital = true
  apart : ∀ name, names name → ∀ other, names other → name ≠ other → pascalChars name <+: pascalChars other →
    ((pascalChars other).drop (pascalChars name).length).head?.any (fun c => !capital c) = true

namespace Legible

variable {capital : Char → Bool} {names names' : String → Prop} {path path' : List String} {name other : String}

theorem mono (legible : Legible capital names) (fewer : ∀ name, names' name → names name) :
    Legible capital names' where
  begins name listed := legible.begins name (fewer name listed)
  apart name listed other listed' := legible.apart name (fewer name listed) other (fewer other listed')

theorem exists_capital (legible : Legible capital names) (listed : names name) :
    ∃ c rest, pascalChars name = c :: rest ∧ capital c = true := by
  obtain ⟨c, first, isCapital⟩ := (Option.any_eq_true _ _).1 (legible.begins name listed)
  obtain ⟨rest, form⟩ := List.head?_eq_some_iff.1 first
  exact ⟨c, rest, form, isCapital⟩

/-- A row begins with a capital, unless it is empty. -/
theorem row_ne (legible : Legible capital names) (listed : ∀ name ∈ path, names name) {rest after : List Char}
    (small : rest.head?.any (fun c => !capital c) = true) : path.flatMap pascalChars ≠ rest ++ after := by
  intro same
  obtain ⟨c, first, notCapital⟩ := (Option.any_eq_true _ _).1 small
  obtain ⟨tail, rfl⟩ := List.head?_eq_some_iff.1 first
  cases path with
  | nil =>
      cases same
  | cons name path =>
      obtain ⟨d, more, form, isCapital⟩ := legible.exists_capital (listed name List.mem_cons_self)
      rw [List.flatMap_cons, form, List.cons_append, List.cons_append] at same
      obtain ⟨rfl, -⟩ := List.cons.inj same
      rw [isCapital] at notCapital
      cases notCapital

/-- The row of a path cannot go on within another name than its first. -/
theorem eq_of_longer (legible : Legible capital names) (listed : ∀ s ∈ name :: path, names s) (listed' : names other)
    {rest after : List Char} (longer : pascalChars other = pascalChars name ++ rest)
    (goesOn : path.flatMap pascalChars = rest ++ after) : name = other := by
  refine Decidable.byContradiction fun different => ?_
  have begins : pascalChars name <+: pascalChars other := ⟨rest, longer.symm⟩
  have small := legible.apart name (listed name List.mem_cons_self) other listed' different begins
  rw [longer, List.drop_left] at small
  exact legible.row_ne (fun s later => listed s (List.mem_cons_of_mem _ later)) small goesOn

/-- A path of legible names can be read off its row. -/
theorem path_eq (legible : Legible capital names) (listed : ∀ name ∈ path, names name)
    (listed' : ∀ name ∈ path', names name) (same : path.flatMap pascalChars = path'.flatMap pascalChars) :
    path = path' := by
  have notEmpty {name : String} {path : List String} (listed : names name) :
      (name :: path).flatMap pascalChars ≠ [] := by
    obtain ⟨c, rest, form, -⟩ := legible.exists_capital listed
    rw [List.flatMap_cons, form]
    exact List.cons_ne_nil _ _
  induction path generalizing path' with
  | nil =>
      cases path' with
      | nil => rfl
      | cons name path' => exact absurd same.symm (notEmpty (listed' name List.mem_cons_self))
  | cons name path inductionHypothesis =>
      cases path' with
      | nil => exact absurd same (notEmpty (listed name List.mem_cons_self))
      | cons other path' =>
          rw [List.flatMap_cons, List.flatMap_cons] at same
          have sameName : name = other := by
            -- of two beginnings of one row, the one begins the other
            rcases List.append_eq_append_iff.1 same with ⟨rest, longer, goesOn⟩ | ⟨rest, longer, goesOn⟩
            · exact legible.eq_of_longer listed (listed' other List.mem_cons_self) longer goesOn
            · exact (legible.eq_of_longer listed' (listed name List.mem_cons_self) longer goesOn).symm
          subst sameName
          rw [inductionHypothesis (fun s later => listed s (List.mem_cons_of_mem _ later))
            (fun s later => listed' s (List.mem_cons_of_mem _ later)) (List.append_cancel_left same)]

end Legible

end SchemaRpc.Casing
