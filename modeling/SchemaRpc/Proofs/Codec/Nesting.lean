import SchemaRpc.Proofs.Codec.Shadowed
import SchemaRpc.Proofs.Json.Parts
import SchemaRpc.Proofs.Value.Depth

/-!
# Reading under a bound on nesting

The same coding under a bound and under a greater one (`Codec.Cuts`): it succeeds under the lower bound exactly when
it succeeds under the greater one with a result that is not too deep, and a complaint about anything but depth stays.
So it is with reading (`Codec.cuts_decoder`), whose result fits when its containers do.
-/

namespace SchemaRpc

/-- The complaint is about nesting. -/
def CodecError.isTooDeep : CodecError → Bool
  | depthExceeded _ _ => true
  | _ => false

namespace Codec

/-- The codec with another bound on nesting. -/
def within (c : Codec) (bound : Nat) : Codec :=
  { c with maxDepth := bound }

/-- A result under a bound beside the one under a greater bound: the results that fit are kept, complaints about
anything but depth are the same, and depth is complained about only where the bound is low. -/
structure Cuts {α : Type} (low : Prop) (fits : α → Prop) (bounded free : Except CodecError α) : Prop where
  ok_iff : ∀ a, bounded = .ok a ↔ free = .ok a ∧ fits a
  same : ∀ error, bounded = .error error → error.isTooDeep = false → free = .error error
  low : ∀ error, bounded = .error error → error.isTooDeep = true → low

/-- The result is no complaint about nesting. -/
def Shallow {α : Type} (result : Except CodecError α) : Prop :=
  ∀ error, result = .error error → error.isTooDeep = false

namespace Cuts

variable {α β : Type} {low : Prop} {fits : α → Prop} {fits' : β → Prop} {x y : Except CodecError α}

theorem refl (shallow : Shallow x) (each : ∀ a, x = .ok a → fits a) : Cuts low fits x x where
  ok_iff a := ⟨fun made => ⟨made, each a made⟩, And.left⟩
  same _ failed _ := failed
  low error failed deep := by
    rw [shallow error failed] at deep
    cases deep

theorem ok {a : α} (here : fits a) : Cuts low fits (.ok a) (.ok a) := by
  refine refl (fun error failed => ?_) fun b made => ?_
  · cases failed
  · cases made
    exact here

theorem error {error : CodecError} (other : error.isTooDeep = false) : Cuts low fits (.error error) (.error error) := by
  refine refl (fun error failed => ?_) fun b made => ?_
  · cases failed
    exact other
  · cases made

theorem bind {f g : α → Except CodecError β} (first : Cuts low fits x y)
    (rest : ∀ a, x = .ok a → fits a → Cuts low fits' (f a) (g a))
    (back : ∀ a b, y = .ok a → g a = .ok b → fits' b → fits a) :
    Cuts low fits' (x >>= f) (y >>= g) where
  ok_iff b := by
    rw [Except.bind_eq_ok_iff, Except.bind_eq_ok_iff]
    constructor
    · rintro ⟨a, made, madeRest⟩
      obtain ⟨madeFree, fitsPart⟩ := (first.ok_iff a).mp made
      obtain ⟨madeRestFree, fitsWhole⟩ := ((rest a made fitsPart).ok_iff b).mp madeRest
      exact ⟨⟨a, madeFree, madeRestFree⟩, fitsWhole⟩
    · rintro ⟨⟨a, madeFree, madeRestFree⟩, fitsWhole⟩
      have fitsPart := back a b madeFree madeRestFree fitsWhole
      have made := (first.ok_iff a).mpr ⟨madeFree, fitsPart⟩
      exact ⟨a, made, ((rest a made fitsPart).ok_iff b).mpr ⟨madeRestFree, fitsWhole⟩⟩
  same failure failed other := by
    rw [Except.bind_eq_error_iff]
    rcases Except.bind_eq_error_iff.mp failed with early | ⟨a, made, late⟩
    · exact .inl (first.same failure early other)
    · obtain ⟨madeFree, fitsPart⟩ := (first.ok_iff a).mp made
      exact .inr ⟨a, madeFree, (rest a made fitsPart).same failure late other⟩
  low failure failed deep := by
    rcases Except.bind_eq_error_iff.mp failed with early | ⟨a, made, late⟩
    · exact first.low failure early deep
    · exact (rest a made ((first.ok_iff a).mp made).2).low failure late deep

/-- What no bound touches comes first. -/
theorem after {f g : α → Except CodecError β} (shallow : Shallow x)
    (rest : ∀ a, x = .ok a → Cuts low fits' (f a) (g a)) : Cuts low fits' (x >>= f) (x >>= g) := by
  have first : Cuts low (fun _ => True) x x := refl shallow fun _ _ => trivial
  exact first.bind (fun a made _ => rest a made) fun _ _ _ _ _ => trivial

theorem congr (cuts : Cuts low fits x y) {fits' : α → Prop} {low' : Prop} (sameFits : ∀ a, fits a ↔ fits' a)
    (lower : low → low') : Cuts low' fits' x y where
  ok_iff a := by rw [cuts.ok_iff, sameFits]
  same := cuts.same
  low error failed deep := lower (cuts.low error failed deep)

end Cuts

variable {c : Codec} {bound more : Nat} {t item : TypeDef} {path : String} {depth : Nat}

theorem cuts_enter (greater : bound ≤ more) :
    Cuts (bound < depth + 1) (fun inner => inner = depth + 1 ∧ inner ≤ bound) ((c.within bound).enter depth path)
      ((c.within more).enter depth path) where
  ok_iff inner := by
    rw [enter_eq_ok_iff, enter_eq_ok_iff]
    dsimp only [within]
    omega
  same failure failed other := by
    obtain ⟨-, rfl⟩ := enter_eq_error_iff.mp failed
    cases other
  low failure failed _ := (enter_eq_error_iff.mp failed).1

/-- The bound is felt at the container, and then by its parts. -/
theorem Cuts.inside {α β : Type} {low : Prop} {fits : α → Prop} {fits' : β → Prop}
    {parts parts' : Nat → Except CodecError α} {whole : α → β} (greater : bound ≤ more)
    (lower : bound < depth + 1 → low)
    (each : depth + 1 ≤ bound → Cuts low fits (parts (depth + 1)) (parts' (depth + 1)))
    (together : ∀ x, fits' (whole x) ↔ depth + 1 ≤ bound ∧ fits x) :
    Cuts low fits' ((c.within bound).enter depth path >>= fun inner => parts inner >>= fun x => pure (whole x))
      ((c.within more).enter depth path >>= fun inner => parts' inner >>= fun x => pure (whole x)) := by
  refine ((cuts_enter greater).congr (fun _ => Iff.rfl) lower).bind ?_ ?_
  · rintro inner - ⟨rfl, room⟩
    refine (each room).bind (fun x _ fitsParts => .ok ((together x).mpr ⟨room, fitsParts⟩)) ?_
    intro x result _ made fitsResult
    cases made
    exact ((together x).mp fitsResult).2
  · intro inner result entered made fitsResult
    obtain ⟨x, -, wrapped⟩ := Except.bind_eq_ok_iff.mp made
    cases wrapped
    obtain ⟨-, rfl⟩ := enter_eq_ok_iff.mp entered
    exact ⟨rfl, ((together x).mp fitsResult).1⟩

theorem shallow_target : Shallow (c.target t) := by
  intro error failed
  obtain ⟨name, rfl⟩ := exists_of_target_error failed
  rfl

/-- Where the references end, no bound is felt. -/
theorem Cuts.target {α : Type} {low : Prop} {fits : α → Prop} {f g : Form TypeDef → Except CodecError α}
    (rest : ∀ form, c.target t = .ok form → Cuts low fits (f form) (g form)) :
    Cuts low fits ((c.within bound).target t >>= f) ((c.within more).target t >>= g) :=
  .after shallow_target rest

/-! ## Decoding -/

section Decoding

variable {low : Prop}

theorem shallow_decodeScalar {json : Json} {form : Form TypeDef} : Shallow (decodeScalar json form path) := by
  intro error failed
  rcases exists_of_decodeScalar_error failed with ⟨_, _, rfl⟩ | ⟨_, rfl⟩ | ⟨_, rfl⟩ <;> rfl

/-- A scalar is no container: it fits wherever its place does. -/
theorem cuts_decodeScalar (room : depth ≤ bound) {json : Json} {form : Form TypeDef} :
    Cuts low (fun v => depth + v.depth ≤ bound) (decodeScalar json form path) (decodeScalar json form path) := by
  refine .refl shallow_decodeScalar fun v decoded => ?_
  rwa [Value.depth_of_isScalar (isScalar_of_decodeScalar decoded)]

theorem shallow_decodeTag {key : String} {members : Json.Members} : Shallow (decodeTag c path key members) := by
  intro error failed
  unfold decodeTag at failed
  split at failed
  · cases failed
    rfl
  · cases failed
  · cases failed
    rfl

/-- The bound cuts off what one decoder reads by the depth of what is read. -/
def CutsReading (low : Prop) (bound depth : Nat) (bounded free : Decoder) : Prop :=
  ∀ t path, Cuts low (fun v => depth + v.depth ≤ bound) (bounded t path depth) (free t path depth)

theorem cuts_decodeItems {items : List Json} {index : Nat}
    (each : ∀ json ∈ items, CutsReading low bound depth (decoder (c.within bound) json) (decoder (c.within more) json)) :
    Cuts low (fun vs => ∀ v ∈ vs, depth + v.depth ≤ bound) (decodeItems (c.within bound) item path depth index items)
      (decodeItems (c.within more) item path depth index items) := by
  induction items generalizing index with
  | nil =>
      exact .ok (List.forall_mem_nil _)
  | cons json rest inductionHypothesis =>
      obtain ⟨head, tail⟩ := List.forall_mem_cons.mp each
      refine (head item _).bind (fun v _ fitsHead => ?_) fun v vs _ made fits => ?_
      · refine (inductionHypothesis tail).bind (fun vs _ fitsTail => .ok ?_) fun vs result _ made fits => ?_
        · exact List.forall_mem_cons.mpr ⟨fitsHead, fitsTail⟩
        · cases made
          exact (List.forall_mem_cons.mp fits).2
      · obtain ⟨vs, -, made⟩ := Except.bind_eq_ok_iff.mp made
        cases made
        exact (List.forall_mem_cons.mp fits).1

/-- What is read under a key stays, unless the key comes again. -/
theorem find?_of_decodeEntries {members : Json.Members} {done entries : Entries Value} {key : String}
    (fresh : key ∉ members.map Prod.fst) (decoded : decodeEntries c item path depth done members = .ok entries) :
    entries.find? key = done.find? key := by
  induction members generalizing done with
  | nil =>
      cases decoded
      rfl
  | cons member rest inductionHypothesis =>
      obtain ⟨other, json⟩ := member
      rw [List.map_cons, List.mem_cons, not_or] at fresh
      obtain ⟨v, -, decoded⟩ := Except.bind_eq_ok_iff.mp decoded
      rw [inductionHypothesis fresh.2 decoded, Entries.find?_insert_of_ne fresh.1]

theorem fits_insert {done : Entries Value} {v : Value} (key : String) (new : depth + v.depth ≤ bound)
    (each : ∀ entry ∈ done, depth + entry.2.depth ≤ bound) :
    ∀ entry ∈ done.insert key v, depth + entry.2.depth ≤ bound := by
  intro entry member
  rcases Entries.mem_insert member with rfl | before
  · exact new
  · exact each entry before

theorem cuts_decodeEntries {members : Json.Members} {done : Entries Value} (once : (members.map Prod.fst).Nodup)
    (each : ∀ json ∈ members.map Prod.snd,
      CutsReading low bound depth (decoder (c.within bound) json) (decoder (c.within more) json))
    (fitsDone : ∀ entry ∈ done, depth + entry.2.depth ≤ bound) :
    Cuts low (fun entries => ∀ entry ∈ entries, depth + entry.2.depth ≤ bound)
      (decodeEntries (c.within bound) item path depth done members)
      (decodeEntries (c.within more) item path depth done members) := by
  induction members generalizing done with
  | nil =>
      exact .ok fitsDone
  | cons member rest inductionHypothesis =>
      obtain ⟨key, json⟩ := member
      obtain ⟨fresh, once⟩ := List.nodup_cons.mp once
      obtain ⟨head, tail⟩ := List.forall_mem_cons.mp each
      refine (head item _).bind (fun v _ fitsHead => ?_) fun v entries _ decoded fits => ?_
      · exact inductionHypothesis once tail (fits_insert key fitsHead fitsDone)
      · have kept : entries.find? key = some v := by
          rw [find?_of_decodeEntries fresh decoded, Entries.find?_insert_self]
        exact fits _ (Entries.mem_of_find? kept)

/-- Taking a decoder out is taking its member out. -/
theorem erase_memberDecoders (key : String) (members : Json.Members) :
    (memberDecoders c members).erase key = memberDecoders c (Entries.erase key members) := by
  induction members with
  | nil =>
      rfl
  | cons member rest inductionHypothesis =>
      obtain ⟨other, json⟩ := member
      by_cases same : other = key
      · simp [memberDecoders, Entries.erase, same]
      · simp [memberDecoders, Entries.erase, same, inductionHypothesis]

/-- A field that is read stays: no property of its name finds a member again. -/
theorem find?_of_decodeProperties {decoders : Entries Decoder} {done fields : Entries Value} {name : String}
    {properties : List (Property TypeDef)} (once : (decoders.map Prod.fst).Nodup)
    (gone : decoders.find? (c.key name) = none)
    (decoded : decodeProperties c path depth decoders done properties = .ok fields) :
    fields.find? name = done.find? name := by
  induction properties generalizing decoders done with
  | nil =>
      cases decoded
      rfl
  | cons p rest inductionHypothesis =>
      cases found : decoders.find? (c.key p.name) with
      | none =>
          rw [decodeProperties_cons_none found] at decoded
          split at decoded
          · exact inductionHypothesis once gone decoded
          · cases decoded
      | some read =>
          rw [decodeProperties_cons_some found] at decoded
          obtain ⟨v, -, decoded⟩ := Except.bind_eq_ok_iff.mp decoded
          have different : name ≠ p.name := by
            rintro rfl
            rw [gone] at found
            cases found
          have goneStill := Entries.find?_erase_of_gone once (List.forall_mem_singleton.mpr gone) (c.key p.name)
          rw [inductionHypothesis (Entries.nodup_keys_erase once _)
            (goneStill _ (List.mem_cons_of_mem _ List.mem_cons_self)) decoded, Entries.find?_insert_of_ne different]

theorem cuts_decodeProperties {members : Json.Members} {done : Entries Value} {properties : List (Property TypeDef)}
    (once : (members.map Prod.fst).Nodup)
    (each : ∀ json ∈ members.map Prod.snd,
      CutsReading low bound depth (decoder (c.within bound) json) (decoder (c.within more) json))
    (fitsDone : ∀ entry ∈ done, depth + entry.2.depth ≤ bound) :
    Cuts low (fun fields => ∀ field ∈ fields, depth + field.2.depth ≤ bound)
      (decodeProperties (c.within bound) path depth (memberDecoders (c.within bound) members) done properties)
      (decodeProperties (c.within more) path depth (memberDecoders (c.within more) members) done properties) := by
  induction properties generalizing members done with
  | nil =>
      exact .ok fitsDone
  | cons p rest inductionHypothesis =>
      cases found : Entries.find? (c.key p.name) members with
      | none =>
          have missing (limit : Nat) :
              (memberDecoders (c.within limit) members).find? ((c.within limit).key p.name) = none := by
            rw [find?_memberDecoders]
            exact congrArg _ found
          rw [decodeProperties_cons_none (missing bound), decodeProperties_cons_none (missing more)]
          split
          · exact inductionHypothesis once each fitsDone
          · exact .error rfl
      | some json =>
          have present (limit : Nat) : (memberDecoders (c.within limit) members).find? ((c.within limit).key p.name) =
              some (decoder (c.within limit) json) := by
            rw [find?_memberDecoders]
            exact congrArg _ found
          have onceRest := Entries.nodup_keys_erase once (c.key p.name)
          have rest := (Entries.erase_sublist (c.key p.name) members).map Prod.snd
          have eachRest := fun part held => each part (rest.subset held)
          have held : json ∈ members.map Prod.snd := List.mem_map_of_mem (Entries.mem_of_find? found)
          rw [decodeProperties_cons_some (present bound), decodeProperties_cons_some (present more),
            erase_memberDecoders, erase_memberDecoders]
          refine (each json held p.type _).bind (fun v _ fitsHead => ?_) fun v fields _ decoded fits => ?_
          · exact inductionHypothesis onceRest eachRest (fits_insert p.name fitsHead fitsDone)
          · have gone : (memberDecoders (c.within more) (Entries.erase (c.key p.name) members)).find?
                ((c.within more).key p.name) = none := by
              rw [find?_memberDecoders]
              exact congrArg _ (Entries.find?_erase_self_of_nodup once)
            have onceDecoders :
                ((memberDecoders (c.within more) (Entries.erase (c.key p.name) members)).map Prod.fst).Nodup := by
              rw [keys_memberDecoders]
              exact onceRest
            have kept : fields.find? p.name = some v := by
              rw [find?_of_decodeProperties onceDecoders gone decoded, Entries.find?_insert_self]
            exact fits _ (Entries.mem_of_find? kept)

theorem cuts_decoder (greater : bound ≤ more) {json : Json} (stored : json.Everywhere Json.Stored)
    (room : depth ≤ bound) :
    CutsReading (bound < depth + json.depth) bound depth (decoder (c.within bound) json)
      (decoder (c.within more) json) := by
  induction json using Json.induct generalizing depth with
  | step json inductionHypothesis =>
    intro t path
    have parts (inside : depth + 1 ≤ bound) : ∀ part ∈ json.parts,
        CutsReading (bound < depth + json.depth) bound (depth + 1) (decoder (c.within bound) part)
          (decoder (c.within more) part) := by
      intro part held t path
      have deeper := Json.depth_of_mem_parts held
      refine (inductionHypothesis part held (stored.parts part held) inside t path).congr (fun _ => Iff.rfl) ?_
      omega
    cases json with
    | null =>
        rw [decoder_null, decoder_null]
        split
        · exact .ok room
        split
        · exact .ok room
        · exact .error rfl
    | bool | num | str =>
        refine Cuts.target fun form _ => ?_
        split
        · exact .ok room
        · exact cuts_decodeScalar room
    | arr items =>
        have low : bound < depth + 1 → bound < depth + (Json.arr items).depth := by
          rw [Json.depth]
          omega
        refine Cuts.target fun form _ => ?_
        cases form with
        | any =>
            exact .ok room
        | elements item =>
            exact .inside greater low (fun inside => cuts_decodeItems (parts inside)) fun vs => Value.array_le_iff
        | _ =>
            exact .error rfl
    | obj members =>
        have low : bound < depth + 1 → bound < depth + (Json.obj members).depth := by
          rw [Json.depth]
          omega
        have once : (members.map Prod.fst).Nodup := stored.here
        refine Cuts.target fun form _ => ?_
        cases form with
        | any =>
            exact .ok room
        | values item =>
            exact .inside greater low (fun inside => cuts_decodeEntries once (parts inside) (List.forall_mem_nil _))
              fun entries => Value.map_le_iff
        | object properties =>
            exact .inside greater low (fun inside => cuts_decodeProperties once (parts inside) (List.forall_mem_nil _))
              fun fields => Value.object_le_iff
        | union key mapping =>
            refine .after shallow_decodeTag fun tag _ => ?_
            cases mapping.lookup tag with
            | none =>
                exact .error rfl
            | some properties =>
                dsimp only
                rw [erase_memberDecoders, erase_memberDecoders]
                have held := (Entries.erase_sublist (c.key key) members).map Prod.snd
                refine .inside greater low (fun inside => ?_) fun fields => Value.union_le_iff
                exact cuts_decodeProperties (Entries.nodup_keys_erase once _)
                  (fun part member => parts inside part (held.subset member)) (List.forall_mem_nil _)
        | _ =>
            exact .error rfl

end Decoding

end Codec

end SchemaRpc
