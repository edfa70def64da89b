import SchemaRpc.Codec.Query
import SchemaRpc.Proofs.Codec.Success
import SchemaRpc.Proofs.Json.Parts
import SchemaRpc.Proofs.TypeDef.Nodes

/-!
# Coding where all references end

Over a table where the references of all definitions end at a body, no way of coding comes upon an open reference: JSON and
values are taken or refused for what they are. The inductions are on the JSON and on the value, as the coders recurse.
-/

namespace SchemaRpc

/-- A reference ends at a definition of the table. -/
def Form.Grounded (defs : Definitions) : Form TypeDef → Prop
  | .ref name => ∃ target, defs.resolve (.ref name) = .ok target
  | _ => True

theorem Definitions.exists_resolve {defs : Definitions} {t : TypeDef} (grounded : t.form.Grounded defs) :
    ∃ target, defs.resolve t = .ok target := by
  cases isRef : t.refName? with
  | none =>
      exact ⟨t, resolve_of_refName?_eq_none isRef⟩
  | some name =>
      rw [TypeDef.refName?_eq_some_iff.1 isRef] at grounded
      obtain ⟨target, resolved⟩ := grounded
      obtain ⟨count, leads⟩ := resolve_eq_ok_iff.1 resolved
      cases leads with
      | here final =>
          cases final
      | step same found rest =>
          cases same
          exact ⟨target, resolve_eq_ok_iff.2 ⟨_, .step isRef found rest⟩⟩

/-- The complaint is about an open reference. -/
def CodecError.isUnresolved : CodecError → Bool
  | unresolvedRef _ => true
  | _ => false

namespace Codec

/-- The result is no complaint about an open reference. -/
def Settled {α : Type} (result : Except CodecError α) : Prop :=
  ∀ name, result ≠ .error (.unresolvedRef name)

namespace Settled

variable {α β : Type} {x : Except CodecError α} {f : α → Except CodecError β}

theorem ok {a : α} : Settled (.ok a) := by
  intro name same
  cases same

theorem error {error : CodecError} (other : error.isUnresolved = false) : @Settled α (.error error) := by
  intro name same
  cases same
  cases other

theorem recast {error : CodecError} (settled : @Settled α (.error error)) : @Settled β (.error error) := by
  intro name same
  cases same
  exact settled name rfl

theorem bind (first : Settled x) (rest : ∀ a, x = .ok a → Settled (f a)) : Settled (x >>= f) := by
  cases made : x with
  | error failure =>
      intro name same
      cases same
      exact first name made
  | ok a =>
      exact rest a made

end Settled

variable {c : Codec} {t item : TypeDef} {path : String} {depth : Nat}

theorem settled_enter : Settled (c.enter depth path) := by
  unfold enter
  split
  · exact .error rfl
  · exact .ok

/-- All references end that a definition holds. -/
def Ends (c : Codec) (t : TypeDef) : Prop :=
  t.Everywhere (Form.Grounded c.definitions)

/-- All references end that the bodies of the table hold. -/
def BodiesEnd (c : Codec) : Prop :=
  c.definitions.Everywhere (Form.Grounded c.definitions)

theorem BodiesEnd.exists_resolve (bodies : c.BodiesEnd) (ends : c.Ends t) :
    ∃ target, c.definitions.resolve t = .ok target ∧ c.Ends target := by
  obtain ⟨target, resolved⟩ := Definitions.exists_resolve ends.here
  exact ⟨target, resolved, Definitions.resolve_induct resolved ends fun _ _ found => bodies.get? found⟩

/-- What goes on at the form at the end of the references. -/
theorem BodiesEnd.settled_target {α : Type} {f : Form TypeDef → Except CodecError α} (bodies : c.BodiesEnd)
    (ends : c.Ends t) (rest : ∀ target, c.Ends target → Settled (f target.form)) : Settled (c.target t >>= f) := by
  obtain ⟨target, resolved, endsTarget⟩ := bodies.exists_resolve ends
  rw [Except.bind_of_eq_ok (target_eq_ok_iff.2 ⟨target, resolved, rfl⟩)]
  exact rest target endsTarget

/-! ## Decoding -/

section Decoding

theorem settled_decodeMismatch {form : Form TypeDef} {json : Json} : Settled (decodeMismatch form path json) :=
  .error rfl

theorem settled_decodeInteger {n : Int} {kind : PrimitiveKind} : Settled (decodeInteger n kind path) := by
  unfold decodeInteger
  split
  · exact .error rfl
  · split <;> exact .ok

theorem settled_decodeTimestamp {s : String} : Settled (decodeTimestamp s path) := by
  unfold decodeTimestamp
  split
  · exact .ok
  · exact .error rfl

theorem settled_decodeScalar {json : Json} {form : Form TypeDef} : Settled (decodeScalar json form path) := by
  intro name failed
  rcases exists_of_decodeScalar_error failed with ⟨_, _, same⟩ | ⟨_, same⟩ | ⟨_, same⟩ <;> cases same

theorem settled_decodeTag {key : String} {members : Json.Members} : Settled (decodeTag c path key members) := by
  unfold decodeTag
  split
  · exact .error rfl
  · exact .ok
  · exact .error rfl

/-- No reference is open on the way of a decoder, wherever it is used. -/
def Decoder.Settles (c : Codec) (decode : Decoder) : Prop :=
  ∀ t path depth, c.Ends t → Settled (decode t path depth)

theorem settled_decodeProperties {properties : List (Property TypeDef)} {decoders : Entries Decoder}
    {done : Entries Value} (settle : ∀ entry ∈ decoders, Decoder.Settles c entry.2)
    (ends : ∀ p ∈ properties, c.Ends p.type) :
    Settled (decodeProperties c path depth decoders done properties) := by
  induction properties generalizing decoders done with
  | nil =>
      exact .ok
  | cons head tail inductionHypothesis =>
      obtain ⟨name, type, optional⟩ := head
      obtain ⟨endsHead, endsTail⟩ := List.forall_mem_cons.1 ends
      cases found : decoders.find? (c.key name) with
      | none =>
          simp only [decodeProperties, found]
          split
          · exact inductionHypothesis settle endsTail
          · exact .error rfl
      | some decode =>
          have settled : Settled (decode type (childPath path (c.key name)) depth) :=
            settle _ (Entries.mem_of_find? found) type _ depth endsHead
          simp only [decodeProperties, found]
          cases decoded : decode type (childPath path (c.key name)) depth with
          | ok v =>
              have settleRest : ∀ entry ∈ decoders.erase (c.key name), Decoder.Settles c entry.2 :=
                fun entry member => settle entry ((Entries.erase_sublist _ decoders).subset member)
              exact inductionHypothesis settleRest endsTail
          | error error =>
              rw [decoded] at settled
              exact settled.recast

theorem settled_decodeItems {items : List Json} {index : Nat} (ends : c.Ends item)
    (settle : ∀ json ∈ items, Decoder.Settles c (decoder c json)) :
    Settled (decodeItems c item path depth index items) := by
  induction items generalizing index with
  | nil =>
      exact .ok
  | cons head tail inductionHypothesis =>
      obtain ⟨settleHead, settleTail⟩ := List.forall_mem_cons.1 settle
      refine Settled.bind (settleHead item _ depth ends) fun v _ => ?_
      exact Settled.bind (inductionHypothesis settleTail) fun vs _ => .ok

theorem settled_decodeEntries {members : Json.Members} {done : Entries Value} (ends : c.Ends item)
    (settle : ∀ json ∈ members.map Prod.snd, Decoder.Settles c (decoder c json)) :
    Settled (decodeEntries c item path depth done members) := by
  induction members generalizing done with
  | nil =>
      exact .ok
  | cons head tail inductionHypothesis =>
      obtain ⟨key, json⟩ := head
      obtain ⟨settleHead, settleTail⟩ := List.forall_mem_cons.1 settle
      exact Settled.bind (settleHead item _ depth ends) fun v _ => inductionHypothesis settleTail

theorem settles_memberDecoders {members : Json.Members}
    (settle : ∀ json ∈ members.map Prod.snd, Decoder.Settles c (decoder c json)) :
    ∀ entry ∈ memberDecoders c members, Decoder.Settles c entry.2 := by
  induction members with
  | nil =>
      exact List.forall_mem_nil _
  | cons head tail inductionHypothesis =>
      obtain ⟨key, json⟩ := head
      obtain ⟨settleHead, settleTail⟩ := List.forall_mem_cons.1 settle
      exact List.forall_mem_cons.2 ⟨settleHead, inductionHypothesis settleTail⟩

theorem settles_decoder (bodies : c.BodiesEnd) (json : Json) : Decoder.Settles c (decoder c json) := by
  induction json using Json.induct with
  | step json inductionHypothesis =>
      intro t path depth ends
      cases json with
      | null =>
          change Settled (if t.nullable then _ else if isAny t then _ else _)
          split
          · exact .ok
          · split
            · exact .ok
            · exact .error rfl
      | bool | num | str =>
          refine bodies.settled_target ends fun target _ => ?_
          split
          · exact .ok
          · exact settled_decodeScalar
      | arr items =>
          refine bodies.settled_target ends fun target endsTarget => ?_
          cases form : target.form with
          | any =>
              exact .ok
          | elements item =>
              refine Settled.bind settled_enter fun inner _ => ?_
              exact Settled.bind (settled_decodeItems (endsTarget.elements form) inductionHypothesis) fun _ _ => .ok
          | _ =>
              exact settled_decodeMismatch
      | obj members =>
          have settles := settles_memberDecoders inductionHypothesis
          refine bodies.settled_target ends fun target endsTarget => ?_
          cases form : target.form with
          | any =>
              exact .ok
          | values item =>
              refine Settled.bind settled_enter fun inner _ => ?_
              exact Settled.bind (settled_decodeEntries (endsTarget.values form) inductionHypothesis) fun _ _ => .ok
          | object properties =>
              refine Settled.bind settled_enter fun inner _ => ?_
              exact Settled.bind (settled_decodeProperties settles (endsTarget.object form)) fun _ _ => .ok
          | union key mapping =>
              refine Settled.bind settled_decodeTag fun tag _ => ?_
              cases listed : mapping.lookup tag with
              | none =>
                  exact .error rfl
              | some properties =>
                  have endsVariant := endsTarget.union form (tag, properties) (mem_of_lookup listed)
                  refine Settled.bind settled_enter fun inner _ => ?_
                  refine Settled.bind (settled_decodeProperties (fun entry member => settles entry ?_) endsVariant)
                    fun _ _ => .ok
                  exact (Entries.erase_sublist _ _).subset member
          | _ =>
              exact settled_decodeMismatch

end Decoding

/-! ## Encoding -/

section Encoding

variable {v : Value}

theorem settled_encodeMismatch {form : Form TypeDef} : Settled (encodeMismatch form path v) :=
  .error rfl

theorem settled_encodeFloat {x : Binary64} : Settled (encodeFloat x path) := by
  unfold encodeFloat
  split
  · exact .ok
  · exact .error rfl

theorem settled_encodeIntegerAt {n : Int} {form : Form TypeDef} : Settled (encodeIntegerAt v n form path) := by
  unfold encodeIntegerAt
  split
  · split
    · exact settled_encodeFloat
    · split
      · unfold encodeInteger
        split
        · exact .error rfl
        · split <;> exact .ok
      · exact settled_encodeMismatch
  · exact settled_encodeMismatch

theorem settled_encodeScalar {form : Form TypeDef} : Settled (encodeScalar v form path) := by
  unfold encodeScalar
  split
  · exact .ok
  · exact .ok
  · split
    · exact .ok
    · exact .error rfl
  · exact .ok
  · exact settled_encodeFloat
  · exact settled_encodeFloat
  · exact settled_encodeIntegerAt
  · exact settled_encodeIntegerAt
  · exact .ok
  · exact settled_encodeMismatch

/-- No reference is open on the way of an encoder, wherever it is used. -/
def Encoder.Settles (c : Codec) (encode : Encoder) : Prop :=
  ∀ t path depth, c.Ends t → Settled (encode t path depth)

theorem settled_encodeProperties {properties : List (Property TypeDef)} {encoders : Entries (Option Encoder)}
    {done : Json.Members} (settle : ∀ entry ∈ encoders, ∀ encode, entry.2 = some encode → Encoder.Settles c encode)
    (ends : ∀ p ∈ properties, c.Ends p.type) :
    Settled (encodeProperties c encoders path depth done properties) := by
  induction properties generalizing done with
  | nil =>
      exact .ok
  | cons head tail inductionHypothesis =>
      obtain ⟨name, type, optional⟩ := head
      obtain ⟨endsHead, endsTail⟩ := List.forall_mem_cons.1 ends
      cases found : (encoders.find? name).join with
      | none =>
          simp only [encodeProperties, found]
          split
          · exact inductionHypothesis endsTail
          · exact .error rfl
      | some encode =>
          have member := Entries.mem_of_find? (Option.join_eq_some_iff.1 found)
          have settled : Settled (encode type (childPath path (c.key name)) depth) :=
            settle _ member encode rfl type _ depth endsHead
          simp only [encodeProperties, found]
          cases encoded : encode type (childPath path (c.key name)) depth with
          | ok json =>
              exact inductionHypothesis endsTail
          | error error =>
              rw [encoded] at settled
              exact settled.recast

theorem settled_encodeItems {items : List Value} {index : Nat} (ends : c.Ends item)
    (settle : ∀ v ∈ items, Encoder.Settles c (encoder c v)) : Settled (encodeItems c item path depth index items) := by
  induction items generalizing index with
  | nil =>
      exact .ok
  | cons head tail inductionHypothesis =>
      obtain ⟨settleHead, settleTail⟩ := List.forall_mem_cons.1 settle
      refine Settled.bind (settleHead item _ depth ends) fun json _ => ?_
      exact Settled.bind (inductionHypothesis settleTail) fun jsons _ => .ok

theorem settled_encodeEntries {entries : List (String × Value)} (ends : c.Ends item)
    (settle : ∀ entry ∈ entries, Encoder.Settles c (encoder c entry.2)) :
    Settled (encodeEntries c item path depth entries) := by
  induction entries with
  | nil =>
      exact .ok
  | cons head tail inductionHypothesis =>
      obtain ⟨key, v⟩ := head
      obtain ⟨settleHead, settleTail⟩ := List.forall_mem_cons.1 settle
      refine Settled.bind (settleHead item _ depth ends) fun json _ => ?_
      exact Settled.bind (inductionHypothesis settleTail) fun members _ => .ok

theorem settles_fieldEncoders {fields : List (String × Value)}
    (settle : ∀ field ∈ fields, Encoder.Settles c (encoder c field.2)) :
    ∀ entry ∈ fieldEncoders c fields, ∀ encode, entry.2 = some encode → Encoder.Settles c encode := by
  induction fields with
  | nil =>
      exact List.forall_mem_nil _
  | cons head tail inductionHypothesis =>
      obtain ⟨name, v⟩ := head
      obtain ⟨settleHead, settleTail⟩ := List.forall_mem_cons.1 settle
      refine List.forall_mem_cons.2 ⟨fun encode given => ?_, inductionHypothesis settleTail⟩
      dsimp only at given
      split at given
      · cases given
      · cases given
        exact settleHead

theorem settles_encoder (bodies : c.BodiesEnd) (v : Value) : Encoder.Settles c (encoder c v) := by
  induction v using Value.induct with
  | absent =>
      exact fun t path depth ends => .error rfl
  | null =>
      intro t path depth ends
      change Settled (if t.nullable || isAny t then _ else _)
      split
      · exact .ok
      · exact .error rfl
  | scalar v isScalar =>
      intro t path depth ends
      rw [encoder_scalar isScalar]
      exact bodies.settled_target ends fun _ _ => settled_encodeScalar
  | array items inductionHypothesis =>
      intro t path depth ends
      refine bodies.settled_target ends fun target endsTarget => ?_
      cases form : target.form with
      | elements item =>
          refine Settled.bind settled_enter fun inner _ => ?_
          exact Settled.bind (settled_encodeItems (endsTarget.elements form) inductionHypothesis) fun _ _ => .ok
      | _ =>
          exact settled_encodeMismatch
  | map entries inductionHypothesis =>
      intro t path depth ends
      refine bodies.settled_target ends fun target endsTarget => ?_
      cases form : target.form with
      | values item =>
          refine Settled.bind settled_enter fun inner _ => ?_
          exact Settled.bind (settled_encodeEntries (endsTarget.values form) inductionHypothesis) fun _ _ => .ok
      | _ =>
          exact settled_encodeMismatch
  | object fields inductionHypothesis =>
      intro t path depth ends
      have settles := settles_fieldEncoders inductionHypothesis
      refine bodies.settled_target ends fun target endsTarget => ?_
      cases form : target.form with
      | object properties =>
          refine Settled.bind settled_enter fun inner _ => ?_
          exact Settled.bind (settled_encodeProperties settles (endsTarget.object form)) fun _ _ => .ok
      | _ =>
          exact settled_encodeMismatch
  | union tag fields inductionHypothesis =>
      intro t path depth ends
      have settles := settles_fieldEncoders inductionHypothesis
      refine bodies.settled_target ends fun target endsTarget => ?_
      cases form : target.form with
      | union key mapping =>
          cases listed : mapping.lookup tag with
          | none =>
              simp only [listed]
              exact .error rfl
          | some properties =>
              have endsVariant := endsTarget.union form (tag, properties) (mem_of_lookup listed)
              simp only [listed]
              refine Settled.bind settled_enter fun inner _ => ?_
              exact Settled.bind (settled_encodeProperties settles endsVariant) fun _ _ => .ok
      | _ =>
          exact settled_encodeMismatch

end Encoding

/-! ## Query pairs -/

section Query

/-- What goes on at the end of the references of a definition. -/
theorem BodiesEnd.settled_resolved {α : Type} {f : TypeDef → Except CodecError α} (bodies : c.BodiesEnd)
    (ends : c.Ends t) (rest : ∀ target, c.Ends target → Settled (f target)) : Settled (c.resolved t >>= f) := by
  obtain ⟨target, resolved, endsTarget⟩ := bodies.exists_resolve ends
  have made : c.resolved t = .ok target := by
    rw [Codec.resolved, resolved]
  rw [Except.bind_of_eq_ok made]
  exact rest target endsTarget

theorem settled_coerce {s : String} {kind : PrimitiveKind} : Settled (coerce s kind path) := by
  unfold coerce
  split
  · exact .ok
  · split
    · exact .ok
    · split
      · exact .ok
      · exact .error rfl
  · exact settled_decodeTimestamp
  · split
    · split
      · exact .ok
      · exact .error rfl
    · split
      · exact settled_decodeInteger
      · exact .error rfl

theorem settled_queryScalar (bodies : c.BodiesEnd) {s : String} (ends : c.Ends t) :
    Settled (c.queryScalar s t path) := by
  refine bodies.settled_resolved ends fun target _ => ?_
  split
  · exact .ok
  · split
    · exact settled_coerce
    · split
      · exact .ok
      · exact .error rfl
    · exact .error rfl

theorem settled_queryItems (bodies : c.BodiesEnd) {texts : List String} {index : Nat} (ends : c.Ends item) :
    Settled (c.queryItems item path index texts) := by
  induction texts generalizing index with
  | nil =>
      exact .ok
  | cons text texts inductionHypothesis =>
      refine Settled.bind (settled_queryScalar bodies ends) fun v _ => ?_
      exact Settled.bind inductionHypothesis fun vs _ => .ok

theorem settled_queryValue (bodies : c.BodiesEnd) {first : String} {others : List String} (ends : c.Ends t) :
    Settled (c.queryValue first others t path) := by
  refine bodies.settled_resolved ends fun target endsTarget => ?_
  cases form : target.form with
  | elements item =>
      dsimp only
      split
      · exact .ok
      · exact Settled.bind (settled_queryItems bodies (endsTarget.elements form)) fun vs _ => .ok
  | _ =>
      exact settled_queryScalar bodies ends

theorem settled_queryProperties (bodies : c.BodiesEnd) {pairs : QueryPairs} {properties : List (Property TypeDef)}
    {done : Entries Value} (ends : ∀ p ∈ properties, c.Ends p.type) :
    Settled (c.queryProperties pairs done properties) := by
  induction properties generalizing done with
  | nil =>
      exact .ok
  | cons head tail inductionHypothesis =>
      obtain ⟨name, type, optional⟩ := head
      obtain ⟨endsHead, endsTail⟩ := List.forall_mem_cons.1 ends
      unfold queryProperties
      dsimp only
      split
      · split
        · exact inductionHypothesis endsTail
        · exact .error rfl
      · next first others given =>
        have settled : Settled (c.queryValue first others type (childPath rootPath (c.key name))) :=
          settled_queryValue bodies endsHead
        cases read : c.queryValue first others type (childPath rootPath (c.key name)) with
        | ok v =>
            exact inductionHypothesis endsTail
        | error error =>
            rw [read] at settled
            exact settled.recast

theorem settled_decodeQuery (bodies : c.BodiesEnd) {pairs : QueryPairs} (ends : c.Ends t) :
    Settled (c.decodeQuery pairs t) := by
  refine bodies.settled_resolved ends fun target endsTarget => ?_
  cases form : target.form with
  | object properties =>
      exact Settled.bind (settled_queryProperties bodies (endsTarget.object form)) fun _ _ => .ok
  | _ =>
      exact .error rfl

end Query

end Codec

end SchemaRpc
