import Mathlib.Data.List.Nodup
import Mathlib.Logic.Relation
import SchemaRpc.Proofs.Codec.Shadowed

/-!
# JSON from a newer sender

A sender that knows more may put more members into the objects of records and variants, and may order them as it likes.
`Widens` is one such change at one place, however deep. It changes nothing of what is decoded: neither the value, nor which
complaint comes first and about which place.
-/

namespace SchemaRpc

namespace Json.Members

theorem get?_append_cons_of_ne {key other : String} (different : other ≠ key) (extra : Json) (before after : Members) :
    get? other (before ++ (key, extra) :: after) = get? other (before ++ after) := by
  simp only [get?, List.lookup_append, List.lookup_cons, beq_false_of_ne different]

theorem get?_append_cons_self {key : String} {json : Json} {before after : Members}
    (once : ((before ++ (key, json) :: after).map Prod.fst).Nodup) :
    get? key (before ++ (key, json) :: after) = some json :=
  lookup_of_mem once (List.mem_append_right before List.mem_cons_self)

/-- Where each key is there once, its place does not matter. -/
theorem get?_of_perm {members members' : Members} (once : (members.map Prod.fst).Nodup) (perm : members'.Perm members)
    (key : String) : get? key members' = get? key members := by
  have once' : (members'.map Prod.fst).Nodup := (perm.map Prod.fst).nodup_iff.2 once
  cases found : get? key members with
  | some json =>
      exact lookup_of_mem once' (perm.mem_iff.2 (mem_of_lookup found))
  | none =>
      cases found' : get? key members' with
      | none =>
          rfl
      | some json =>
          have here : get? key members = some json := lookup_of_mem once (perm.mem_iff.1 (mem_of_lookup found'))
          rw [found] at here
          cases here

end Json.Members

namespace Codec

variable {c : Codec} {t item : TypeDef} {path : String} {depth : Nat} {json json' : Json}

/-! ## What decoding depends on -/

section Depends

variable {properties : List (Property TypeDef)} {taken : List String} {members members' : Json.Members}

/-- Decoding properties depends on the decoders that are found for those that are not shadowed. -/
theorem decodeProperties_congr {decoders decoders' : Entries Decoder} {done : Entries Value}
    (once : (decoders.map Prod.fst).Nodup) (once' : (decoders'.map Prod.fst).Nodup)
    (gone : ∀ key ∈ taken, decoders.find? key = none) (gone' : ∀ key ∈ taken, decoders'.find? key = none)
    (same : ∀ p ∈ c.unshadowed taken properties,
      (decoders'.find? (c.key p.name)).map (fun read => read p.type) =
        (decoders.find? (c.key p.name)).map fun read => read p.type) :
    decodeProperties c path depth decoders' done properties = decodeProperties c path depth decoders done properties := by
  induction properties generalizing taken decoders decoders' done with
  | nil =>
      rfl
  | cons head tail inductionHypothesis =>
      by_cases isTaken : c.key head.name ∈ taken
      · simp only [unshadowed, isTaken, if_true] at same
        simp only [decodeProperties, gone _ isTaken, gone' _ isTaken]
        cases head.optional with
        | true =>
            exact inductionHypothesis once once' gone gone' same
        | false =>
            rfl
      · simp only [unshadowed, isTaken, if_false, List.forall_mem_cons] at same
        obtain ⟨sameHead, sameTail⟩ := same
        simp only [decodeProperties]
        cases found : decoders.find? (c.key head.name) with
        | none =>
            have found' : decoders'.find? (c.key head.name) = none := by
              simpa [found] using sameHead
            simp only [found']
            cases head.optional with
            | true =>
                exact inductionHypothesis once once' (List.forall_mem_cons.2 ⟨found, gone⟩)
                  (List.forall_mem_cons.2 ⟨found', gone'⟩) sameTail
            | false =>
                rfl
        | some read =>
            obtain ⟨read', found', sameRead⟩ : ∃ read', decoders'.find? (c.key head.name) = some read' ∧
                read' head.type = read head.type := by
              simpa [found] using sameHead
            have tailGone := Entries.find?_erase_of_gone once gone (c.key head.name)
            have tailGone' := Entries.find?_erase_of_gone once' gone' (c.key head.name)
            simp only [found', sameRead]
            cases read head.type (childPath path (c.key head.name)) depth with
            | error error =>
                rfl
            | ok v =>
                refine inductionHypothesis (Entries.nodup_keys_erase once _) (Entries.nodup_keys_erase once' _) tailGone
                  tailGone' fun p member => ?_
                -- the key of a later property that is not shadowed is not the one that was taken out
                have different : c.key p.name ≠ c.key head.name := by
                  intro sameKey
                  have free := nodup_wireKeys_unshadowed.2 _ (mem_wireKeys member)
                  rw [sameKey] at free
                  exact free List.mem_cons_self
                rw [Entries.find?_erase_of_ne different, Entries.find?_erase_of_ne different]
                exact sameTail p member

/-- The object is read as a record, as a variant, or as one that no tag tells: with these keys taken and these properties
looked for. -/
inductive Reads (c : Codec) (members : Json.Members) : Form TypeDef → List String → List (Property TypeDef) → Prop where
  | record {properties : List (Property TypeDef)} : Reads c members (.object properties) [] properties
  | variant {key tag : String} {mapping : List (String × List (Property TypeDef))}
      {properties : List (Property TypeDef)} :
      members.get? (c.key key) = some (.str tag) → mapping.lookup tag = some properties →
        Reads c members (.union key mapping) [c.key key] properties
  | untold {key : String} {mapping : List (String × List (Property TypeDef))} :
      (∀ tag, members.get? (c.key key) = some (.str tag) → mapping.lookup tag = none) →
        Reads c members (.union key mapping) [c.key key] []

theorem decodeTag_congr {key : String} (same : members'.get? (c.key key) = members.get? (c.key key)) :
    decodeTag c path key members' = decodeTag c path key members := by
  simp only [decodeTag, same]

theorem Remaining.decodeProperties_congr {decoders decoders' : Entries Decoder}
    (remaining : Remaining c taken members decoders) (remaining' : Remaining c taken members' decoders')
    (same : ∀ p ∈ c.unshadowed taken properties,
      (members'.get? (c.key p.name)).map (fun json => decoder c json p.type) =
        (members.get? (c.key p.name)).map fun json => decoder c json p.type) :
    decodeProperties c path depth decoders' [] properties = decodeProperties c path depth decoders [] properties := by
  refine Codec.decodeProperties_congr remaining.once remaining'.once remaining.gone remaining'.gone fun p member => ?_
  have free : c.key p.name ∉ taken := nodup_wireKeys_unshadowed.2 _ (mem_wireKeys member)
  have samePart := same p member
  rw [remaining.others _ free, remaining'.others _ free, Option.map_map, Option.map_map]
  exact samePart

theorem decoder_obj_of_tagged {key tag : String} {mapping : List (String × List (Property TypeDef))}
    (reached : c.target t = .ok (.union key mapping)) (tagged : members.get? (c.key key) = some (.str tag))
    (listed : mapping.lookup tag = some properties) :
    decoder c (.obj members) t path depth =
      (c.enter depth path >>= fun inner =>
        decodeProperties c path inner ((memberDecoders c members).erase (c.key key)) [] properties >>= fun fields =>
          pure (.union tag fields)) := by
  refine (Except.bind_of_eq_ok reached).trans ?_
  refine (Except.bind_of_eq_ok (decodeTag_eq_ok_iff.2 tagged)).trans ?_
  simp only [listed]

theorem decoder_obj_of_untold {key : String} {mapping : List (String × List (Property TypeDef))}
    (reached : c.target t = .ok (.union key mapping))
    (unlisted : ∀ tag, members.get? (c.key key) = some (.str tag) → mapping.lookup tag = none) :
    decoder c (.obj members) t path depth =
      (decodeTag c path key members >>= fun tag => .error (.unknownTag (childPath path (c.key key)) tag)) := by
  refine (Except.bind_of_eq_ok reached).trans (Except.bind_congr_of_ok fun tag tagged => ?_)
  simp only [unlisted tag (decodeTag_eq_ok_iff.1 tagged)]

/-- Decoding an object depends on its tag and on the members of the properties that are not shadowed. -/
theorem decoder_obj_congr {form : Form TypeDef} (reached : c.target t = .ok form)
    (reads : Reads c members form taken properties) (once : (members.map Prod.fst).Nodup)
    (once' : (members'.map Prod.fst).Nodup) (sameTaken : ∀ key ∈ taken, members'.get? key = members.get? key)
    (same : ∀ p ∈ c.unshadowed taken properties,
      (members'.get? (c.key p.name)).map (fun json => decoder c json p.type) =
        (members.get? (c.key p.name)).map fun json => decoder c json p.type) :
    decoder c (.obj members') t path depth = decoder c (.obj members) t path depth := by
  cases reads with
  | record =>
      have unfolded : ∀ members, decoder c (.obj members) t path depth =
          (c.enter depth path >>= fun inner =>
            decodeProperties c path inner (memberDecoders c members) [] properties >>= fun fields =>
              pure (.object fields)) := fun _ => Except.bind_of_eq_ok reached
      have sameFields : ∀ inner, decodeProperties c path inner (memberDecoders c members') [] properties =
          decodeProperties c path inner (memberDecoders c members) [] properties := fun _ =>
        (remaining_object once).decodeProperties_congr (remaining_object once') same
      simp only [unfolded, sameFields]
  | @variant key tag mapping properties tagged listed =>
      have sameTag := sameTaken _ List.mem_cons_self
      have sameFields : ∀ inner,
          decodeProperties c path inner ((memberDecoders c members').erase (c.key key)) [] properties =
            decodeProperties c path inner ((memberDecoders c members).erase (c.key key)) [] properties := fun _ =>
        (remaining_union once _).decodeProperties_congr (remaining_union once' _) same
      rw [decoder_obj_of_tagged reached tagged listed, decoder_obj_of_tagged reached (sameTag.trans tagged) listed]
      simp only [sameFields]
  | @untold key mapping unlisted =>
      have sameTag := sameTaken _ List.mem_cons_self
      have unlisted' : ∀ tag, members'.get? (c.key key) = some (.str tag) → mapping.lookup tag = none :=
        fun tag tagged => unlisted tag (sameTag.symm.trans tagged)
      rw [decoder_obj_of_untold reached unlisted, decoder_obj_of_untold reached unlisted', decodeTag_congr sameTag]

end Depends

/-! ## One item or entry in the place of another -/

theorem decodeItems_congr (same : decoder c json' item = decoder c json item) (before after : List Json) (index : Nat) :
    decodeItems c item path depth index (before ++ json' :: after) =
      decodeItems c item path depth index (before ++ json :: after) := by
  induction before generalizing index with
  | nil =>
      simp only [List.nil_append, decodeItems, same]
  | cons head tail inductionHypothesis =>
      simp only [List.cons_append, decodeItems, inductionHypothesis]

theorem decodeEntries_congr {key : String} (same : decoder c json' item = decoder c json item)
    (before after : Json.Members) (done : Entries Value) :
    decodeEntries c item path depth done (before ++ (key, json') :: after) =
      decodeEntries c item path depth done (before ++ (key, json) :: after) := by
  induction before generalizing done with
  | nil =>
      simp only [List.nil_append, decodeEntries, same]
  | cons head tail inductionHypothesis =>
      simp only [List.cons_append, decodeEntries, inductionHypothesis]

/-! ## Changes that a newer sender makes -/

/-- One member more in an object that is read as a record or a variant, under a key that is not looked for, or the members
of such an object in another order, at the place itself or at one that is decoded for it. Objects have each key once, as
JSON is kept. -/
inductive Widens (c : Codec) : TypeDef → Json → Json → Prop where
  | added {t : TypeDef} {form : Form TypeDef} {taken : List String} {properties : List (Property TypeDef)}
      (before after : Json.Members) (key : String) (extra : Json) :
      c.target t = .ok form → Reads c (before ++ after) form taken properties →
        ((before ++ (key, extra) :: after).map Prod.fst).Nodup →
        key ∉ taken → key ∉ Form.wireKeys c.casing properties →
        Widens c t (.obj (before ++ after)) (.obj (before ++ (key, extra) :: after))
  | reordered {t : TypeDef} {form : Form TypeDef} {taken : List String} {properties : List (Property TypeDef)}
      {members members' : Json.Members} :
      c.target t = .ok form → Reads c members form taken properties → (members.map Prod.fst).Nodup →
        members'.Perm members → Widens c t (.obj members) (.obj members')
  | member {t : TypeDef} {form : Form TypeDef} {taken : List String} {properties : List (Property TypeDef)}
      (before after : Json.Members) (p : Property TypeDef) {json json' : Json} :
      c.target t = .ok form → Reads c (before ++ (c.key p.name, json) :: after) form taken properties →
        ((before ++ (c.key p.name, json) :: after).map Prod.fst).Nodup →
        p ∈ c.unshadowed taken properties → Widens c p.type json json' →
        Widens c t (.obj (before ++ (c.key p.name, json) :: after)) (.obj (before ++ (c.key p.name, json') :: after))
  | item {t item : TypeDef} (before after : List Json) {json json' : Json} :
      c.target t = .ok (.elements item) → Widens c item json json' →
        Widens c t (.arr (before ++ json :: after)) (.arr (before ++ json' :: after))
  | entry {t item : TypeDef} (before after : Json.Members) (key : String) {json json' : Json} :
      c.target t = .ok (.values item) → Widens c item json json' →
        Widens c t (.obj (before ++ (key, json) :: after)) (.obj (before ++ (key, json') :: after))

/-- A change that a newer sender makes is not seen, at whatever path and depth it is decoded. -/
theorem decoder_of_widens (widens : c.Widens t json json') : decoder c json' t = decoder c json t := by
  induction widens with
  | @added t form taken properties before after key extra reached reads once notTaken unread =>
      have once' : ((before ++ after).map Prod.fst).Nodup :=
        (((List.sublist_cons_self _ _).append_left before).map Prod.fst).nodup once
      have others : ∀ other, other ≠ key →
          Json.Members.get? other (before ++ (key, extra) :: after) = Json.Members.get? other (before ++ after) :=
        fun other different => Json.Members.get?_append_cons_of_ne different extra before after
      funext path depth
      refine decoder_obj_congr reached reads once' once (fun other isTaken => others other ?_) fun p unshadowed => ?_
      · rintro rfl
        exact notTaken isTaken
      · have declared : p ∈ properties := mem_iff_unshadowed_or_shadowed.2 (.inl unshadowed)
        have different : c.key p.name ≠ key := by
          rintro rfl
          exact unread (mem_wireKeys declared)
        rw [others _ different]
  | @reordered t form taken properties members members' reached reads once perm =>
      have once' : (members'.map Prod.fst).Nodup := (perm.map Prod.fst).nodup_iff.2 once
      funext path depth
      refine decoder_obj_congr reached reads once once' (fun key _ => Json.Members.get?_of_perm once perm key) ?_
      intro p _
      rw [Json.Members.get?_of_perm once perm]
  | @member t form taken properties before after p json json' reached reads once unshadowed _ same =>
      have once' : ((before ++ (c.key p.name, json') :: after).map Prod.fst).Nodup := by
        simpa using once
      have others : ∀ other, other ≠ c.key p.name →
          Json.Members.get? other (before ++ (c.key p.name, json') :: after) =
            Json.Members.get? other (before ++ (c.key p.name, json) :: after) := by
        intro other different
        rw [Json.Members.get?_append_cons_of_ne different, Json.Members.get?_append_cons_of_ne different]
      obtain ⟨distinct, free⟩ := @nodup_wireKeys_unshadowed c properties taken
      funext path depth
      refine decoder_obj_congr reached reads once once' (fun other isTaken => others other ?_) fun q unshadowedToo => ?_
      · rintro rfl
        exact free _ (mem_wireKeys unshadowed) isTaken
      · by_cases sameKey : c.key q.name = c.key p.name
        · have sameProperty : q = p := List.inj_on_of_nodup_map distinct unshadowedToo unshadowed sameKey
          rw [sameProperty, Json.Members.get?_append_cons_self once, Json.Members.get?_append_cons_self once',
            Option.map_some, Option.map_some, same]
        · rw [others _ sameKey]
  | @item t item before after json json' reached _ same =>
      funext path depth
      have unfolded : ∀ items, decoder c (.arr items) t path depth =
          (c.enter depth path >>= fun inner =>
            decodeItems c item path inner 0 items >>= fun vs => pure (.array vs)) :=
        fun _ => Except.bind_of_eq_ok reached
      simp only [unfolded, decodeItems_congr same]
  | @entry t item before after key json json' reached _ same =>
      funext path depth
      have unfolded : ∀ members, decoder c (.obj members) t path depth =
          (c.enter depth path >>= fun inner =>
            decodeEntries c item path inner [] members >>= fun entries => pure (.map entries)) :=
        fun _ => Except.bind_of_eq_ok reached
      simp only [unfolded, decodeEntries_congr same]

/-- However many members a newer sender adds, and in whatever order it puts them, the same is decoded or the same complaint
made. -/
theorem decodeJson_widened (widened : Relation.ReflTransGen (c.Widens t) json json') :
    c.decodeJson json' t = c.decodeJson json t := by
  induction widened with
  | refl =>
      rfl
  | tail _ widens inductionHypothesis =>
      rw [← inductionHypothesis, decodeJson, decodeJson, decoder_of_widens widens]

/-- Orders have lines, and each line is for an item or for a discount. -/
def orderCodec : Codec where
  definitions :=
    { entries :=
        [("Line", ⟨some (.ofForm (.union "line_kind"
            [("item", [⟨"unit_price", .primitive .int32, false⟩]), ("discount", [])])), none⟩),
          ("Order", ⟨some (.object [⟨"order_lines", .elements (.ref "Line"), false⟩,
            ⟨"note", .primitive .string, true⟩]), some 0⟩)] }
  maxDepth := 3

/-- An order of one line, as an older sender writes it. -/
def oldOrder (price : Json) : Json :=
  .obj [("orderLines", .arr [.obj [("lineKind", .str "item"), ("unitPrice", price)]])]

/-- The same order from a newer sender: deeper than what is decoded may be, and with a key that another variant might have. -/
def newOrder (price : Json) : Json :=
  .obj [("trace", .arr [.arr [.arr [.arr []]]]),
    ("orderLines", .arr [.obj [("unitPrice", price), ("percent", .null), ("lineKind", .str "item")]])]

theorem decodeJson_widened_order :
    orderCodec.decodeJson (newOrder (.num (.int 3))) (.ref "Order") =
        .ok (.object [("order_lines", .array [.union "item" [("unit_price", .int 3)]])]) ∧
      orderCodec.decodeJson (newOrder (.str "3")) (.ref "Order") =
        .error (.typeMismatch "/orderLines/0/unitPrice" "int32" "string") := by
  have outerKeys : ["trace", "orderLines"].Nodup := by decide
  have ofLine : ∀ {line line' : Json}, orderCodec.Widens (.ref "Line") line line' →
      orderCodec.Widens (.ref "Order")
        (.obj [("trace", .arr [.arr [.arr [.arr []]]]), ("orderLines", .arr [line])])
        (.obj [("trace", .arr [.arr [.arr [.arr []]]]), ("orderLines", .arr [line'])]) := by
    intro line line' widens
    exact .member [_] [] ⟨"order_lines", .elements (.ref "Line"), false⟩ rfl .record outerKeys List.mem_cons_self
      (.item [] [] rfl widens)
  have lineKeys : ["lineKind", "percent", "unitPrice"].Nodup := by decide
  have widened : ∀ price, Relation.ReflTransGen (orderCodec.Widens (.ref "Order")) (oldOrder price) (newOrder price) := by
    intro price
    refine .head (.added [] [_] "trace" (.arr [.arr [.arr [.arr []]]]) rfl .record outerKeys (by decide) (by decide)) ?_
    refine .head (ofLine (.added [_] [_] "percent" .null rfl (.variant rfl rfl) lineKeys (by decide) (by decide))) ?_
    refine .single (ofLine (.reordered rfl (.variant rfl rfl) lineKeys ?_))
    exact List.reverse_perm [("lineKind", .str "item"), ("percent", .null), ("unitPrice", price)]
  refine ⟨(decodeJson_widened (widened _)).trans ?_, (decodeJson_widened (widened _)).trans ?_⟩
  · rfl
  · rfl

end Codec

end SchemaRpc
