import Mathlib.Data.List.Forall2
import SchemaRpc.Proofs.Codec.Accepts
import SchemaRpc.Proofs.Codec.Lenient
import SchemaRpc.Proofs.Codec.Shadowed

/-!
# Decoded values are sent on

Whatever the decoder takes can be written, and a peer with the same schema takes what is written exactly when all timestamps
in it have a year from 0 to 9999. Whatever the peer makes of it has the same JSON, so that one pass reaches a fixed point.
The induction is on the JSON that was decoded first.
-/

namespace SchemaRpc

/-- Each element of the left list is related to one of the right list. -/
theorem exists_mem_of_forall₂ {α β : Type} {R : α → β → Prop} {as : List α} {bs : List β}
    (related : List.Forall₂ R as bs) : ∀ a ∈ as, ∃ b ∈ bs, R a b := by
  induction related with
  | nil =>
      exact List.forall_mem_nil _
  | cons head _ inductionHypothesis =>
      refine List.forall_mem_cons.2 ⟨⟨_, List.mem_cons_self, head⟩, fun a member => ?_⟩
      obtain ⟨b, later, related⟩ := inductionHypothesis a member
      exact ⟨b, List.mem_cons_of_mem _ later, related⟩

namespace Codec

variable {c : Codec} {t item : TypeDef} {path : String} {depth : Nat} {json json' : Json} {v : Value}

/-- What is decoded from other JSON than null is there, and is not null. -/
theorem isThere_of_decoder (notNull : json ≠ .null) (decoded : decoder c json t path depth = .ok v) :
    v.isAbsent = false ∧ v.isNull = false := by
  obtain ⟨form, reached⟩ := exists_target_of_decoder notNull decoded
  have scalarCase : decodeScalar json form path = .ok v → v.isAbsent = false ∧ v.isNull = false := by
    intro decodedScalar
    have scalar := isScalar_of_decodeScalar decodedScalar
    cases v <;> first | exact scalar.elim | exact ⟨rfl, rfl⟩
  cases form with
  | any =>
      cases (decoder_any_eq_ok_iff reached notNull).1 decoded
      exact ⟨rfl, rfl⟩
  | primitive kind =>
      exact scalarCase ((decoder_scalar_eq_ok_iff reached (.inl ⟨kind, rfl⟩) notNull).1 decoded)
  | enumeration listed =>
      exact scalarCase ((decoder_scalar_eq_ok_iff reached (.inr ⟨listed, rfl⟩) notNull).1 decoded)
  | elements item =>
      obtain ⟨_, _, _, _, _, rfl⟩ := (decoder_elements_eq_ok_iff reached notNull).1 decoded
      exact ⟨rfl, rfl⟩
  | values item =>
      obtain ⟨_, _, _, _, _, rfl⟩ := (decoder_values_eq_ok_iff reached notNull).1 decoded
      exact ⟨rfl, rfl⟩
  | object properties =>
      obtain ⟨_, _, _, _, _, rfl⟩ := (decoder_object_eq_ok_iff reached notNull).1 decoded
      exact ⟨rfl, rfl⟩
  | ref name =>
      exact absurd reached target_ne_ref
  | union key mapping =>
      obtain ⟨_, _, _, _, _, _, _, _, _, rfl⟩ := (decoder_union_eq_ok_iff reached notNull).1 decoded
      exact ⟨rfl, rfl⟩

/-- A decoded value is there. -/
theorem isAbsent_of_decoder (decoded : decoder c json t path depth = .ok v) : v.isAbsent = false := by
  by_cases isNull : json = .null
  · subst isNull
    rcases decoder_null_eq_ok_iff.1 decoded with ⟨_, rfl⟩ | ⟨_, _, rfl⟩ <;> rfl
  · exact (isThere_of_decoder isNull decoded).1

/-- Whatever is decoded from the JSON is written as the same JSON again. -/
def Fixed (c : Codec) (depth : Nat) (t : TypeDef) (json : Json) : Prop :=
  ∀ path v, decoder c json t path depth = .ok v → ∀ path', encoder c v t path' depth = .ok json

/-- How a value fares that is sent on: it is written as this JSON, a peer takes that exactly when its timestamps have years
from 0 to 9999, and makes something of it that has the same JSON. -/
structure Resends (c : Codec) (depth : Nat) (t : TypeDef) (v : Value) (json : Json) : Prop where
  encoded : ∀ path, encoder c v t path depth = .ok json
  taken : v.Everywhere Value.HasFourDigitYear → c.DecodesAnywhere depth t json
  dated : c.DecodesSomewhere depth t json → v.Everywhere Value.HasFourDigitYear
  fixed : c.Fixed depth t json

/-- Whatever is decoded from the JSON can be sent on. -/
def Resendable (c : Codec) (json : Json) : Prop :=
  ∀ (t : TypeDef) (path : String) (depth : Nat) (v : Value), t.Everywhere Form.Checked →
    decoder c json t path depth = .ok v → ∃ json', Resends c depth t v json'

/-! ## Values without parts -/

theorem resends_null (decoded : decoder c .null t path depth = .ok v) : Resends c depth t v .null := by
  have written : c.Fixed depth t .null := by
    intro path v decoded path'
    rcases decoder_null_eq_ok_iff.1 decoded with ⟨nullable, rfl⟩ | ⟨_, carried, rfl⟩
    · exact encoder_null_eq_ok_iff.2 ⟨.inl nullable, rfl⟩
    · have reached : c.target t = .ok .any := target_of_form (isAny_iff.1 carried) nofun
      exact (encoder_scalar_eq_ok_iff (Value.isScalar_any _)).2 ⟨_, reached, rfl⟩
  constructor
  case encoded =>
    exact written path v decoded
  case taken =>
    exact fun _ path' => ⟨v, decoder_null_eq_ok_iff.2 (decoder_null_eq_ok_iff.1 decoded)⟩
  case dated =>
    intro _
    rcases decoder_null_eq_ok_iff.1 decoded with ⟨_, rfl⟩ | ⟨_, _, rfl⟩
    · exact List.forall_mem_singleton.2 trivial
    · exact (Value.everywhere_of_isScalar (Value.isScalar_any _)).2 trivial
  case fixed =>
    exact written

theorem resends_any (reached : c.target t = .ok .any) (notNull : json ≠ .null) :
    Resends c depth t (.any json) json := by
  have written : ∀ path, encoder c (.any json) t path depth = .ok json := fun path =>
    (encoder_scalar_eq_ok_iff (Value.isScalar_any _)).2 ⟨_, reached, rfl⟩
  constructor
  case encoded =>
    exact written
  case taken =>
    exact fun _ path => ⟨_, (decoder_any_eq_ok_iff reached notNull).2 rfl⟩
  case dated =>
    exact fun _ => (Value.everywhere_of_isScalar (Value.isScalar_any _)).2 trivial
  case fixed =>
    intro path v decoded path'
    cases (decoder_any_eq_ok_iff reached notNull).1 decoded
    exact written path'

theorem exists_resends_scalar {form : Form TypeDef} (reached : c.target t = .ok form)
    (scalarForm : (∃ kind, form = .primitive kind) ∨ ∃ listed, form = .enumeration listed) (writable : Writable form v) :
    ∃ json', Resends c depth t v json' := by
  have told := hasProperTime_of_writable writable
  obtain ⟨scalar, _, json', written⟩ := writable
  have encoded : ∀ path, encoder c v t path depth = .ok json' := fun path =>
    (encoder_scalar_eq_ok_iff scalar).2 ⟨form, reached, written path⟩
  have notAny : form ≠ .any := by
    rintro rfl
    rcases scalarForm with ⟨kind, impossible⟩ | ⟨listed, impossible⟩ <;> cases impossible
  refine ⟨json', ?_⟩
  by_cases fourDigits : v.HasFourDigitYear
  · have again : ∀ path, json' ≠ .null ∧ decodeScalar json' form path = .ok (canonicalScalar v (some form)) ∧
        encodeScalar (canonicalScalar v (some form)) form path = .ok json' := fun path =>
      (roundTrip_scalar scalar notAny (told fourDigits) (written path)).2
    have notNull := (again rootPath).1
    constructor
    case encoded =>
      exact encoded
    case taken =>
      exact fun _ path => ⟨_, (decoder_scalar_eq_ok_iff reached scalarForm notNull).2 (again path).2.1⟩
    case dated =>
      exact fun _ => (Value.everywhere_of_isScalar scalar).2 fourDigits
    case fixed =>
      intro path v' decoded path'
      have read := (decoder_scalar_eq_ok_iff reached scalarForm notNull).1 decoded
      rw [(again path).2.1] at read
      cases read
      exact (encoder_scalar_eq_ok_iff (isScalar_canonicalScalar scalar _)).2 ⟨form, reached, (again path').2.2⟩
  · -- the text of the timestamp is not read, so that nothing is decoded
    obtain ⟨notNull, unread⟩ := decodeScalar_ne_ok_of_encodeScalar fourDigits (written rootPath)
    have refused : ∀ path v', decoder c json' t path depth ≠ .ok v' := fun path v' decoded =>
      unread path v' ((decoder_scalar_eq_ok_iff reached scalarForm notNull).1 decoded)
    constructor
    case encoded =>
      exact encoded
    case taken =>
      exact fun dated => absurd ((Value.everywhere_of_isScalar scalar).1 dated) fourDigits
    case dated =>
      rintro ⟨path, v', decoded⟩
      exact absurd decoded (refused path v')
    case fixed =>
      exact fun path v' decoded => absurd decoded (refused path v')

/-! ## Items and entries -/

theorem exists_resends_items {items : List Json} {index : Nat} {vs : List Value}
    (resendable : ∀ part ∈ items, c.Resendable part) (checked : item.Everywhere Form.Checked)
    (decoded : decodeItems c item path depth index items = .ok vs) :
    ∃ jsons, List.Forall₂ (Resends c depth item) vs jsons := by
  induction items generalizing index vs with
  | nil =>
      cases decoded
      exact ⟨[], .nil⟩
  | cons head tail inductionHypothesis =>
      obtain ⟨resendableHead, resendableTail⟩ := List.forall_mem_cons.1 resendable
      obtain ⟨v, decodedHead, rest⟩ := Except.bind_eq_ok_iff.1 decoded
      obtain ⟨others, decodedTail, made⟩ := Except.bind_eq_ok_iff.1 rest
      cases made
      obtain ⟨json', resendsHead⟩ := resendableHead item _ depth v checked decodedHead
      obtain ⟨jsons, resendsTail⟩ := inductionHypothesis resendableTail decodedTail
      exact ⟨json' :: jsons, .cons resendsHead resendsTail⟩

theorem encodeItems_of_resends {vs : List Value} {jsons : List Json}
    (resends : List.Forall₂ (Resends c depth item) vs jsons) (index : Nat) :
    encodeItems c item path depth index vs = .ok jsons := by
  induction resends generalizing index with
  | nil =>
      rfl
  | cons resendsHead _ inductionHypothesis =>
      exact Except.bind_eq_ok_iff.2 ⟨_, resendsHead.encoded _,
        Except.bind_eq_ok_iff.2 ⟨_, inductionHypothesis (index + 1), rfl⟩⟩

theorem encodeItems_of_fixed {jsons : List Json} {index : Nat} {vs : List Value} (path' : String) (index' : Nat)
    (fixed : ∀ json ∈ jsons, c.Fixed depth item json)
    (decoded : decodeItems c item path depth index jsons = .ok vs) :
    encodeItems c item path' depth index' vs = .ok jsons := by
  induction jsons generalizing index index' vs with
  | nil =>
      cases decoded
      rfl
  | cons head tail inductionHypothesis =>
      obtain ⟨fixedHead, fixedTail⟩ := List.forall_mem_cons.1 fixed
      obtain ⟨v, decodedHead, rest⟩ := Except.bind_eq_ok_iff.1 decoded
      obtain ⟨others, decodedTail, made⟩ := Except.bind_eq_ok_iff.1 rest
      cases made
      exact Except.bind_eq_ok_iff.2 ⟨_, fixedHead _ v decodedHead _,
        Except.bind_eq_ok_iff.2 ⟨_, inductionHypothesis (index' + 1) fixedTail decodedTail, rfl⟩⟩

/-- An entry is written under its own key. -/
def ResendsUnderKey (c : Codec) (depth : Nat) (item : TypeDef) (entry : String × Value) (member : String × Json) : Prop :=
  entry.1 = member.1 ∧ Resends c depth item entry.2 member.2

theorem decodeEntries_sound {members : Json.Members} {done entries : Entries Value} (ascending : Entries.Ascending done)
    (decoded : decodeEntries c item path depth done members = .ok entries) :
    Entries.Ascending entries ∧
      ∀ entry ∈ entries, entry ∈ done ∨
        ∃ part ∈ members.map Prod.snd, ∃ path', decoder c part item path' depth = .ok entry.2 := by
  induction members generalizing done with
  | nil =>
      cases decoded
      exact ⟨ascending, fun _ => .inl⟩
  | cons head tail inductionHypothesis =>
      obtain ⟨key, json⟩ := head
      obtain ⟨v, decodedHead, decodedTail⟩ := Except.bind_eq_ok_iff.1 decoded
      obtain ⟨ascendingAll, origins⟩ := inductionHypothesis (Entries.ascending_insert key v ascending) decodedTail
      refine ⟨ascendingAll, fun entry member => ?_⟩
      rcases origins entry member with before | ⟨part, later, path', decoded⟩
      · rcases Entries.mem_insert before with rfl | before
        · exact .inr ⟨json, List.mem_cons_self, _, decodedHead⟩
        · exact .inl before
      · exact .inr ⟨part, List.mem_cons_of_mem json later, path', decoded⟩

theorem exists_resends_entries {entries : List (String × Value)}
    (each : ∀ entry ∈ entries, ∃ json', Resends c depth item entry.2 json') :
    ∃ members, List.Forall₂ (ResendsUnderKey c depth item) entries members := by
  induction entries with
  | nil =>
      exact ⟨[], .nil⟩
  | cons head tail inductionHypothesis =>
      obtain ⟨⟨json', resendsHead⟩, resendsTail⟩ := List.forall_mem_cons.1 each
      obtain ⟨members, resends⟩ := inductionHypothesis resendsTail
      exact ⟨(head.1, json') :: members, .cons ⟨rfl, resendsHead⟩ resends⟩

theorem encodeEntries_of_resends {entries : List (String × Value)} {members : Json.Members}
    (resends : List.Forall₂ (ResendsUnderKey c depth item) entries members) :
    encodeEntries c item path depth entries = .ok members ∧ entries.map Prod.fst = members.map Prod.fst := by
  induction resends with
  | nil =>
      exact ⟨rfl, rfl⟩
  | @cons entry member _ _ resendsHead _ inductionHypothesis =>
      obtain ⟨key, v⟩ := entry
      obtain ⟨key', json'⟩ := member
      obtain ⟨rfl, resendsHead⟩ := resendsHead
      obtain ⟨written, sameKeys⟩ := inductionHypothesis
      refine ⟨?_, congrArg (List.cons key) sameKeys⟩
      exact Except.bind_eq_ok_iff.2 ⟨_, resendsHead.encoded _, Except.bind_eq_ok_iff.2 ⟨_, written, rfl⟩⟩

/-- Members in ascending key order are read one after the other. -/
theorem encodeEntries_of_fixed {members : Json.Members} {done entries : Entries Value} (path' : String)
    (fixed : ∀ part ∈ members.map Prod.snd, c.Fixed depth item part)
    (ascending : (done.map Prod.fst ++ members.map Prod.fst).Pairwise (· < ·))
    (decoded : decodeEntries c item path depth done members = .ok entries) :
    ∃ others, entries = done ++ others ∧ encodeEntries c item path' depth others = .ok members := by
  induction members generalizing done with
  | nil =>
      cases decoded
      exact ⟨[], (List.append_nil _).symm, rfl⟩
  | cons head tail inductionHypothesis =>
      obtain ⟨key, json⟩ := head
      obtain ⟨fixedHead, fixedTail⟩ := List.forall_mem_cons.1 fixed
      obtain ⟨v, decodedHead, decodedTail⟩ := Except.bind_eq_ok_iff.1 decoded
      have last : done.insert key v = done ++ [(key, v)] := by
        refine Entries.insert_of_forall_lt fun entry member => ?_
        exact (List.pairwise_append.1 ascending).2.2 entry.1 (List.mem_map_of_mem member) key List.mem_cons_self
      have ascendingNext : ((done.insert key v).map Prod.fst ++ tail.map Prod.fst).Pairwise (· < ·) := by
        rw [last]
        simpa using ascending
      obtain ⟨others, whole, written⟩ := inductionHypothesis fixedTail ascendingNext decodedTail
      refine ⟨(key, v) :: others, ?_, ?_⟩
      · rw [whole, last, List.append_assoc]
        rfl
      · exact Except.bind_eq_ok_iff.2 ⟨_, fixedHead _ v decodedHead _, Except.bind_eq_ok_iff.2 ⟨_, written, rfl⟩⟩

/-! ## Arrays and maps -/

theorem exists_resends_array {items : List Json} {vs : List Value} (reached : c.target t = .ok (.elements item))
    (checked : item.Everywhere Form.Checked) (resendable : ∀ part ∈ items, c.Resendable part)
    (allowed : depth + 1 ≤ c.maxDepth) (decoded : decodeItems c item path (depth + 1) 0 items = .ok vs) :
    ∃ json', Resends c depth t (.array vs) json' := by
  obtain ⟨jsons, resends⟩ := exists_resends_items resendable checked decoded
  have written : ∀ json ∈ jsons, ∃ v ∈ vs, Resends c (depth + 1) item v json :=
    exists_mem_of_forall₂ resends.flip
  have notNull := Json.arr_ne_null jsons
  refine ⟨.arr jsons, ?_⟩
  constructor
  case encoded =>
    exact fun path => encoder_array_eq_ok_iff.2
      ⟨item, reached, allowed, jsons, encodeItems_of_resends resends 0, rfl⟩
  case taken =>
    intro dated path
    have datedItems := (Value.everywhere_array trivial).1 dated
    obtain ⟨vs', decodedAgain⟩ := @exists_decodeItems c item path (depth + 1) jsons 0 fun json member => by
      obtain ⟨v, here, resends⟩ := written json member
      exact resends.taken (datedItems v here)
    exact ⟨_, (decoder_elements_eq_ok_iff reached notNull).2 ⟨jsons, rfl, allowed, vs', decodedAgain, rfl⟩⟩
  case dated =>
    rintro ⟨path, v', decodedAgain⟩
    obtain ⟨_, same, _, vs', decodedItems, _⟩ := (decoder_elements_eq_ok_iff reached notNull).1 decodedAgain
    cases same
    refine (Value.everywhere_array trivial).2 fun v here => ?_
    obtain ⟨json, member, resends⟩ := exists_mem_of_forall₂ resends v here
    exact resends.dated (decodesSomewhere_of_decodeItems decodedItems json member)
  case fixed =>
    intro path v' decodedAgain path'
    obtain ⟨_, same, _, vs', decodedItems, rfl⟩ := (decoder_elements_eq_ok_iff reached notNull).1 decodedAgain
    cases same
    refine encoder_array_eq_ok_iff.2 ⟨item, reached, allowed, jsons, ?_, rfl⟩
    refine encodeItems_of_fixed path' 0 (fun json member => ?_) decodedItems
    obtain ⟨v, _, resends⟩ := written json member
    exact resends.fixed

theorem exists_resends_map {members : Json.Members} {entries : Entries Value}
    (reached : c.target t = .ok (.values item)) (checked : item.Everywhere Form.Checked)
    (resendable : ∀ part ∈ members.map Prod.snd, c.Resendable part) (allowed : depth + 1 ≤ c.maxDepth)
    (decoded : decodeEntries c item path (depth + 1) [] members = .ok entries) :
    ∃ json', Resends c depth t (.map entries) json' := by
  obtain ⟨ascending, origins⟩ := decodeEntries_sound .nil decoded
  have each : ∀ entry ∈ entries, ∃ json', Resends c (depth + 1) item entry.2 json' := by
    intro entry member
    obtain ⟨part, held, path', decodedPart⟩ := (origins entry member).resolve_left List.not_mem_nil
    exact resendable part held item path' (depth + 1) entry.2 checked decodedPart
  obtain ⟨members', resends⟩ := exists_resends_entries each
  obtain ⟨_, sameKeys⟩ := @encodeEntries_of_resends c item path _ _ _ resends
  have written : ∀ part ∈ members'.map Prod.snd, ∃ entry ∈ entries, Resends c (depth + 1) item entry.2 part := by
    intro part held
    obtain ⟨member, present, rfl⟩ := List.mem_map.1 held
    obtain ⟨entry, here, _, resends⟩ := exists_mem_of_forall₂ resends.flip member present
    exact ⟨entry, here, resends⟩
  have notNull := Json.obj_ne_null members'
  refine ⟨.obj members', ?_⟩
  constructor
  case encoded =>
    exact fun path => encoder_map_eq_ok_iff.2
      ⟨item, reached, allowed, members', (encodeEntries_of_resends resends).1, rfl⟩
  case taken =>
    intro dated path
    have datedEntries := (Value.everywhere_map trivial).1 dated
    obtain ⟨entries', decodedAgain⟩ := @exists_decodeEntries c item path (depth + 1) members' [] fun part held => by
      obtain ⟨entry, here, resends⟩ := written part held
      exact resends.taken (datedEntries entry here)
    exact ⟨_, (decoder_values_eq_ok_iff reached notNull).2 ⟨members', rfl, allowed, entries', decodedAgain, rfl⟩⟩
  case dated =>
    rintro ⟨path, v', decodedAgain⟩
    obtain ⟨_, same, _, entries', decodedEntries, _⟩ := (decoder_values_eq_ok_iff reached notNull).1 decodedAgain
    cases same
    refine (Value.everywhere_map trivial).2 fun entry here => ?_
    obtain ⟨member, present, _, resends⟩ := exists_mem_of_forall₂ resends entry here
    exact resends.dated (decodesSomewhere_of_decodeEntries decodedEntries member.2 (List.mem_map_of_mem present))
  case fixed =>
    intro path v' decodedAgain path'
    obtain ⟨_, same, _, entries', decodedEntries, rfl⟩ := (decoder_values_eq_ok_iff reached notNull).1 decodedAgain
    cases same
    have inOrder : ((([] : Entries Value).map Prod.fst) ++ members'.map Prod.fst).Pairwise (· < ·) := by
      rw [← sameKeys]
      exact ascending_iff_keys.1 ascending
    obtain ⟨others, rfl, again⟩ := encodeEntries_of_fixed path' (fun part held => by
      obtain ⟨entry, _, resends⟩ := written part held
      exact resends.fixed) inOrder decodedEntries
    exact encoder_map_eq_ok_iff.2 ⟨item, reached, allowed, members', again, rfl⟩

end Codec

end SchemaRpc
