import SchemaRpc.Proofs.Codec.Properties

/-!
# Properties that share a wire key

A casing may give two properties of one object the same wire key. The decoder takes a member out once it is read, so only
the first property under a key reads it: the others are shadowed, they are passed over, and they must be optional. What a
decoder reads and what an encoder writes of its result concerns the unshadowed properties alone, whose keys are distinct.
-/

namespace SchemaRpc.Codec

variable {c : Codec} {path : String} {depth : Nat} {properties : List (Property TypeDef)} {taken : List String}

/-- The properties that are first under their wire key, where some keys are taken already. -/
def unshadowed (c : Codec) : List String → List (Property TypeDef) → List (Property TypeDef)
  | _, [] => []
  | taken, p :: rest =>
      if c.key p.name ∈ taken then unshadowed c taken rest else p :: unshadowed c (c.key p.name :: taken) rest

/-- The properties whose wire key is taken by one before them. -/
def shadowed (c : Codec) : List String → List (Property TypeDef) → List (Property TypeDef)
  | _, [] => []
  | taken, p :: rest =>
      if c.key p.name ∈ taken then p :: shadowed c taken rest else shadowed c (c.key p.name :: taken) rest

theorem perm_unshadowed_append_shadowed :
    (c.unshadowed taken properties ++ c.shadowed taken properties).Perm properties := by
  induction properties generalizing taken with
  | nil =>
      exact .nil
  | cons head tail inductionHypothesis =>
      by_cases isTaken : c.key head.name ∈ taken
      · simp only [unshadowed, shadowed, isTaken, if_true]
        exact List.perm_middle.trans (inductionHypothesis.cons head)
      · simp only [unshadowed, shadowed, isTaken, if_false, List.cons_append]
        exact inductionHypothesis.cons head

theorem mem_iff_unshadowed_or_shadowed {p : Property TypeDef} :
    p ∈ properties ↔ p ∈ c.unshadowed taken properties ∨ p ∈ c.shadowed taken properties := by
  rw [← List.mem_append, perm_unshadowed_append_shadowed.mem_iff]

theorem nodup_wireKeys_unshadowed :
    (Form.wireKeys c.casing (c.unshadowed taken properties)).Nodup ∧
      ∀ key ∈ Form.wireKeys c.casing (c.unshadowed taken properties), key ∉ taken := by
  induction properties generalizing taken with
  | nil =>
      exact ⟨List.nodup_nil, List.forall_mem_nil _⟩
  | cons head tail inductionHypothesis =>
      by_cases isTaken : c.key head.name ∈ taken
      · simp only [unshadowed, isTaken, if_true]
        exact inductionHypothesis
      · obtain ⟨distinct, free⟩ := @inductionHypothesis (c.key head.name :: taken)
        simp only [unshadowed, isTaken, if_false, Form.wireKeys, List.map_cons]
        refine ⟨List.nodup_cons.2 ⟨fun repeated => free _ repeated List.mem_cons_self, distinct⟩, ?_⟩
        refine List.forall_mem_cons.2 ⟨isTaken, fun key member isTaken => ?_⟩
        exact free key member (List.mem_cons_of_mem _ isTaken)

/-- A shadowed property is never found: its member is taken out by the time that it is looked for. -/
theorem decodeProperties_eq_ok_iff_unshadowed {decoders : Entries Decoder} {done fields : Entries Value}
    (once : (decoders.map Prod.fst).Nodup) (gone : ∀ key ∈ taken, decoders.find? key = none) :
    decodeProperties c path depth decoders done properties = .ok fields ↔
      (∀ p ∈ c.shadowed taken properties, p.optional = true) ∧
        decodeProperties c path depth decoders done (c.unshadowed taken properties) = .ok fields := by
  induction properties generalizing taken decoders done with
  | nil =>
      simp [shadowed, unshadowed]
  | cons head tail inductionHypothesis =>
      by_cases isTaken : c.key head.name ∈ taken
      · simp only [shadowed, unshadowed, isTaken, if_true, List.forall_mem_cons, decodeProperties,
          gone _ isTaken]
        cases mayMiss : head.optional with
        | true =>
            simpa using inductionHypothesis once gone
        | false =>
            simp
      · simp only [shadowed, unshadowed, isTaken, if_false, decodeProperties]
        cases found : decoders.find? (c.key head.name) with
        | none =>
            have goneToo : ∀ key ∈ c.key head.name :: taken, decoders.find? key = none :=
              List.forall_mem_cons.2 ⟨found, gone⟩
            cases mayMiss : head.optional with
            | true =>
                simpa using inductionHypothesis once goneToo
            | false =>
                simp
        | some read =>
            have goneToo := Entries.find?_erase_of_gone once gone (c.key head.name)
            have onceToo := Entries.nodup_keys_erase once (c.key head.name)
            cases decoded : read head.type (childPath path (c.key head.name)) depth with
            | error error =>
                simp [decoded]
            | ok v =>
                simpa [decoded] using inductionHypothesis onceToo goneToo

theorem nodup_names_unshadowed (names : (properties.map Property.name).Nodup) :
    ((c.unshadowed taken properties).map Property.name).Nodup ∧
      ∀ p ∈ c.shadowed taken properties, p.name ∉ (c.unshadowed taken properties).map Property.name := by
  have distinct : ((c.unshadowed taken properties ++ c.shadowed taken properties).map Property.name).Nodup :=
    (perm_unshadowed_append_shadowed.map Property.name).nodup_iff.2 names
  rw [List.map_append, List.nodup_append] at distinct
  obtain ⟨distinct, -, apart⟩ := distinct
  refine ⟨distinct, fun p isShadowed repeated => ?_⟩
  exact apart p.name repeated p.name (List.mem_map_of_mem isShadowed) rfl

/-- The decoders are those of the members whose keys are not taken. -/
structure Remaining (c : Codec) (taken : List String) (members : Json.Members) (decoders : Entries Decoder) : Prop where
  once : (decoders.map Prod.fst).Nodup
  gone : ∀ key ∈ taken, decoders.find? key = none
  others : ∀ key ∉ taken, decoders.find? key = (members.get? key).map (decoder c)

section Remaining

variable {members : Json.Members} {decoders : Entries Decoder} {fields : Entries Value}

theorem keys_memberDecoders : (memberDecoders c members).map Prod.fst = members.map Prod.fst := by
  induction members with
  | nil =>
      rfl
  | cons head tail inductionHypothesis =>
      obtain ⟨key, json⟩ := head
      rw [memberDecoders, List.map_cons, List.map_cons, inductionHypothesis]

theorem remaining_object (once : (members.map Prod.fst).Nodup) : Remaining c [] members (memberDecoders c members) where
  once := by
    rw [keys_memberDecoders]
    exact once
  gone := List.forall_mem_nil _
  others key _ := find?_memberDecoders_eq key

theorem remaining_union (once : (members.map Prod.fst).Nodup) (key : String) :
    Remaining c [key] members ((memberDecoders c members).erase key) where
  once := by
    refine Entries.nodup_keys_erase ?_ key
    rw [keys_memberDecoders]
    exact once
  gone := by
    refine List.forall_mem_singleton.2 (Entries.find?_erase_self_of_nodup ?_)
    rw [keys_memberDecoders]
    exact once
  others other different := by
    rw [Entries.find?_erase_of_ne fun same => different (List.mem_singleton.2 same)]
    exact find?_memberDecoders_eq other

/-- Shadowed properties may be missing, and the others are read each by itself. -/
theorem Remaining.decodeProperties_eq_ok_iff (remaining : Remaining c taken members decoders) :
    decodeProperties c path depth decoders [] properties = .ok fields ↔
      (∀ p ∈ c.shadowed taken properties, p.optional = true) ∧
        (∀ p ∈ c.unshadowed taken properties, FieldRead c members path depth p) ∧
          fields = Entries.ofPairs (readFields c members path depth (c.unshadowed taken properties)) := by
  obtain ⟨distinct, free⟩ := @nodup_wireKeys_unshadowed c properties taken
  rw [decodeProperties_eq_ok_iff_unshadowed remaining.once remaining.gone]
  refine and_congr_right fun _ => Codec.decodeProperties_eq_ok_iff distinct fun p member => ?_
  exact remaining.others _ (free _ (mem_wireKeys member))

end Remaining

/-! ## Where fields come from -/

/-- A field is missing where it may be, or was decoded from one of the parts. -/
def FieldDecoded (c : Codec) (parts : List Json) (depth : Nat) (fields : Entries Value)
    (p : Property TypeDef) : Prop :=
  match Entries.find? p.name fields with
  | none => p.optional = true
  | some v => ∃ part ∈ parts, ∃ path, decoder c part p.type path depth = .ok v

/-- Every property is decoded or may be missing, whether or not properties share a wire key. -/
theorem fieldDecoded_of_decodeProperties {parts : List Json} {decoders : Entries Decoder}
    {done fields : Entries Value}
    (made : ∀ entry ∈ decoders, ∃ part ∈ parts, entry.2 = decoder c part)
    (distinct : (properties.map Property.name).Nodup) (fresh : ∀ p ∈ properties, Entries.find? p.name done = none)
    (decoded : decodeProperties c path depth decoders done properties = .ok fields) :
    (∀ name ∉ properties.map Property.name, Entries.find? name fields = Entries.find? name done) ∧
      ∀ p ∈ properties, c.FieldDecoded parts depth fields p := by
  induction properties generalizing decoders done with
  | nil =>
      cases decoded
      exact ⟨fun _ _ => rfl, List.forall_mem_nil _⟩
  | cons head tail inductionHypothesis =>
      obtain ⟨freshName, distinctTail⟩ := List.nodup_cons.1 distinct
      obtain ⟨freshHead, freshTail⟩ := List.forall_mem_cons.1 fresh
      unfold decodeProperties at decoded
      cases found : decoders.find? (c.key head.name) with
      | none =>
          cases mayMiss : head.optional with
          | false =>
              simp [found, mayMiss] at decoded
          | true =>
              simp only [found, mayMiss, if_true] at decoded
              obtain ⟨others, each⟩ := inductionHypothesis made distinctTail freshTail decoded
              refine ⟨fun name unlisted => others name fun later => unlisted (List.mem_cons_of_mem _ later), ?_⟩
              have missing : Entries.find? head.name fields = none := (others _ freshName).trans freshHead
              refine List.forall_mem_cons.2 ⟨?_, each⟩
              simp only [FieldDecoded, missing, mayMiss]
      | some read =>
          simp only [found] at decoded
          obtain ⟨part, here, sameRead⟩ := made _ (Entries.mem_of_find? found)
          obtain rfl : read = decoder c part := sameRead
          split at decoded
          · next v decodedHead =>
            have madeErased : ∀ entry ∈ decoders.erase (c.key head.name), ∃ part ∈ parts, entry.2 = decoder c part :=
              fun entry member => made entry ((Entries.erase_sublist _ _).subset member)
            have freshInserted : ∀ p ∈ tail, Entries.find? p.name (done.insert head.name v) = none := by
              intro p member
              have different : p.name ≠ head.name := fun same => freshName (same ▸ List.mem_map_of_mem member)
              rw [Entries.find?_insert_of_ne different]
              exact freshTail p member
            obtain ⟨others, each⟩ := inductionHypothesis madeErased distinctTail freshInserted decoded
            constructor
            · intro name unlisted
              rw [List.map_cons, List.mem_cons, not_or] at unlisted
              rw [others name unlisted.2, Entries.find?_insert_of_ne unlisted.1]
            · have present : Entries.find? head.name fields = some v :=
                (others _ freshName).trans (Entries.find?_insert_self _ _ _)
              refine List.forall_mem_cons.2 ⟨?_, each⟩
              simp only [FieldDecoded, present]
              exact ⟨part, here, _, decodedHead⟩
          · cases decoded

theorem decoders_made {members : Json.Members} :
    ∀ entry ∈ memberDecoders c members, ∃ part ∈ members.map Prod.snd, entry.2 = decoder c part := by
  induction members with
  | nil =>
      exact List.forall_mem_nil _
  | cons head tail inductionHypothesis =>
      obtain ⟨key, json⟩ := head
      refine List.forall_mem_cons.2 ⟨⟨json, List.mem_cons_self, rfl⟩, fun entry later => ?_⟩
      obtain ⟨part, here, same⟩ := inductionHypothesis entry later
      exact ⟨part, List.mem_cons_of_mem _ here, same⟩

/-! ## Writing -/

/-- Properties that write nothing can be left out. -/
theorem writtenMembers_unshadowed {fields : Entries Value}
    (missing : ∀ p ∈ c.shadowed taken properties, Value.present? p.name fields = none) :
    writtenMembers c fields path depth properties =
      writtenMembers c fields path depth (c.unshadowed taken properties) := by
  induction properties generalizing taken with
  | nil =>
      rfl
  | cons head tail inductionHypothesis =>
      by_cases isTaken : c.key head.name ∈ taken
      · simp only [shadowed, isTaken, if_true, List.forall_mem_cons] at missing
        simp only [unshadowed, isTaken, if_true, writtenMembers_cons]
        have nothing : c.writtenJson? fields path depth head = none := by
          simp [writtenJson?, missing.1]
        rw [nothing]
        exact inductionHypothesis missing.2
      · simp only [shadowed, isTaken, if_false] at missing
        simp only [unshadowed, isTaken, if_false, writtenMembers_cons]
        rw [inductionHypothesis missing]

end SchemaRpc.Codec
