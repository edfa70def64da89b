import SchemaRpc.Http.Basic
import SchemaRpc.Proofs.Codec.Bytes
import SchemaRpc.Proofs.Json.Selected

/-!
# Errors in responses

A client reads an error back from the body of its response (`RpcError.ofText?_ofError`): code and message as they are, and
the data as the reader of JSON leaves it, where null stands for none. Only data that nests too deep for the reader makes it
refuse the body.
-/

namespace SchemaRpc.RpcError

variable {e : RpcError} {data json : Json}

def members (e : RpcError) : Json.Members :=
  [("code", .ofInt e.code.toNat), ("message", .str e.message)] ++ (e.data.map fun data => ("data", data)).toList

/-- The data of the error that is read where this error is written. -/
def rereadData (e : RpcError) : Option Json :=
  e.data.bind fun data => readData data.reread

theorem toJson_eq (e : RpcError) : e.toJson = .obj e.members :=
  rfl

theorem keys_members (e : RpcError) : e.members.map Prod.fst <+: ["code", "message", "data"] := by
  cases data : e.data with
  | none => exact ⟨["data"], by simp [members, data]⟩
  | some json => exact ⟨[], by simp [members, data]⟩

theorem mem_parts_toJson {part : Json} (held : part ∈ e.toJson.parts) :
    part = .ofInt e.code.toNat ∨ part = .str e.message ∨ part ∈ e.data := by
  cases found : e.data <;> simpa [toJson, Json.parts, found, eq_comm] using held

theorem keepsNumber_toJson (stored : ∀ data ∈ e.data, data.Everywhere Json.Stored) :
    e.toJson.Everywhere Json.KeepsNumber := by
  refine .intro trivial fun part held => ?_
  rcases mem_parts_toJson held with rfl | rfl | isData
  · have small := e.code.toNat_lt
    exact .intro ⟨by omega, by omega⟩ (List.forall_mem_nil _)
  · exact .intro trivial (List.forall_mem_nil _)
  · refine (stored part isData).mono fun json kept => ?_
    cases json with
    | num => exact kept
    | _ => trivial

theorem depth_toJson_le_iff : e.toJson.depth ≤ Json.maxNesting ↔ ∀ data ∈ e.data, data.depth < Json.maxNesting := by
  cases found : e.data with
  | none =>
      simp [toJson, found, Json.depth, Json.depthOfMembers, Json.ofInt, Json.maxNesting]
  | some data =>
      simp [toJson, found, Json.depth, Json.depthOfMembers, Json.ofInt, Json.maxNesting, Nat.lt_succ_iff]

theorem readCode?_ofInt (code : UInt16) : readCode? (.ofInt code.toNat) = some code := by
  have small : (code.toNat : Int) < 65536 := by
    have bound := code.toNat_lt
    omega
  simp [readCode?, Json.ofInt, small]

theorem ofMembers?_eq_some {members : Json.Members} {codeJson messageJson : Json} {code : UInt16} {message : String}
    (hasCode : members.get? "code" = some codeJson) (readsCode : readCode? codeJson = some code)
    (hasMessage : members.get? "message" = some messageJson) (readsMessage : readMessage? messageJson = some message) :
    ofMembers? members = some ⟨code, message, (members.get? "data").bind readData⟩ := by
  simp [ofMembers?, hasCode, readsCode, hasMessage, readsMessage]

theorem ofMembers?_rereadMembers (e : RpcError) :
    ofMembers? (Json.rereadMembers e.members) = some { e with data := e.rereadData } := by
  have code : Json.Members.get? "code" (Json.rereadMembers e.members) = some (.ofInt e.code.toNat) := by
    cases found : e.data <;> rfl
  have message : Json.Members.get? "message" (Json.rereadMembers e.members) = some (.str e.message) := by
    cases found : e.data <;> rfl
  have data : Json.Members.get? "data" (Json.rereadMembers e.members) = e.data.map Json.reread := by
    cases found : e.data <;> simp [members, found, Json.rereadMembers, Json.Members.get?, List.lookup_cons]
  rw [ofMembers?_eq_some code (readCode?_ofInt e.code) message rfl, data, rereadData, Option.bind_map]
  rfl

theorem ofText?_compress (stored : ∀ data ∈ e.data, data.Everywhere Json.Stored) :
    ofText? e.toJson.compress =
      if ∀ data ∈ e.data, data.depth < Json.maxNesting then some { e with data := e.rereadData } else none := by
  have kept := keepsNumber_toJson stored
  have apart : (e.members.map Prod.fst).Nodup := (keys_members e).sublist.nodup (by decide)
  have chosen := Json.select?_compress (fun key listed => (keys_members e).subset listed) kept apart
  rw [← toJson_eq] at chosen
  have parsed := Json.parse?_compress kept
  by_cases shallow : e.toJson.depth ≤ Json.maxNesting
  · rw [if_pos shallow] at chosen
    rw [if_pos (depth_toJson_le_iff.mp shallow), ofText?, chosen]
    exact ofMembers?_rereadMembers e
  · rw [if_neg shallow] at chosen parsed
    rw [if_neg (mt depth_toJson_le_iff.mpr shallow), ofText?, chosen, parsed]

theorem readData_eq_some_iff : readData json = some data ↔ json ≠ .null ∧ json = data := by
  cases json <;> simp [readData]

theorem withRereadData_eq_self_iff (stored : ∀ data ∈ e.data, data.Everywhere Json.Stored) :
    { e with data := e.rereadData } = e ↔ ∀ data ∈ e.data, data ≠ .null ∧ data.Everywhere Json.RereadsNumber := by
  obtain ⟨code, message, data⟩ := e
  cases data with
  | none =>
      exact iff_of_true rfl (by simp)
  | some data =>
      have kept := Json.reread_eq_self_iff (stored data rfl)
      have null : data.reread = .null ↔ data = .null := by
        cases data <;> simp [Json.reread]
      simp [rereadData, readData_eq_some_iff, kept, null]

/-- The response to an error has its code as status, if that is a status of errors, and 500 otherwise. From its body the same
error is read exactly if it has no data or data other than null, nested less deep than the reader goes, of which the reader
gets every number back. -/
theorem ofText?_ofError (e : RpcError) (stored : ∀ data ∈ e.data, data.Everywhere Json.Stored) :
    (Http.Response.ofError e).status =
        (if 400 ≤ e.code.toNat ∧ e.code.toNat ≤ 599 then e.code.toNat else 500) ∧
      (ofText? (Http.Response.ofError e).body =
        if ∀ data ∈ e.data, data.depth < Json.maxNesting then some { e with data := e.rereadData } else none) ∧
      (ofText? (Http.Response.ofError e).body = some e ↔
        ∀ data ∈ e.data, data ≠ .null ∧ data.depth < Json.maxNesting ∧ data.Everywhere Json.RereadsNumber) := by
  have body : (Http.Response.ofError e).body = e.toJson.compress :=
    rfl
  have status : (Http.Response.ofError e).status = e.status :=
    rfl
  rw [body, ofText?_compress stored, status]
  refine ⟨by simp [RpcError.status], rfl, ?_⟩
  by_cases shallow : ∀ data ∈ e.data, data.depth < Json.maxNesting
  · rw [if_pos shallow, Option.some.injEq, withRereadData_eq_self_iff stored]
    exact forall₂_congr fun data held => by simp [shallow data held]
  · rw [if_neg shallow]
    refine iff_of_false (by simp) fun same => shallow fun data held => (same data held).2.1

/-- Where a note is missed: what was tried, and how long it took. -/
def missedNote : Json :=
  .obj [("id", .str "n7"), ("tried", .arr [.ofInt 3, .null]), ("seconds", .num (.float ⟨0x3fe0000000000000⟩))]

theorem everywhere_missedNote {P : Json → Prop} (whole : P missedNote) (id : P (.str "n7"))
    (tried : P (.arr [.ofInt 3, .null])) (three : P (.ofInt 3)) (null : P .null)
    (half : P (.num (.float ⟨0x3fe0000000000000⟩))) : missedNote.Everywhere P := by
  have alone {json : Json} (held : P json) (simple : json.parts = []) : json.Everywhere P :=
    .intro held (by simp [simple])
  have inner : (Json.arr [.ofInt 3, .null]).Everywhere P :=
    .intro tried (by simp [Json.parts, alone three rfl, alone null rfl])
  exact .intro whole (by simp [missedNote, Json.parts, alone id rfl, inner, alone half rfl])

theorem ofText?_ofError_missedNote :
    (Http.Response.ofError ⟨404, "Note 'n7' not found", some missedNote⟩).status = 404 ∧
      ofText? (Http.Response.ofError ⟨404, "Note 'n7' not found", some missedNote⟩).body =
        some ⟨404, "Note 'n7' not found", some missedNote⟩ := by
  have stored : missedNote.Everywhere Json.Stored :=
    everywhere_missedNote (by decide : ["id", "tried", "seconds"].Nodup) trivial trivial ⟨by decide, by decide⟩ trivial
      (by decide : Binary64.isFinite ⟨0x3fe0000000000000⟩ = true)
  have reread : missedNote.Everywhere Json.RereadsNumber :=
    everywhere_missedNote trivial trivial trivial rfl trivial
      (by decide +kernel : Json.rereadNumber (.float ⟨0x3fe0000000000000⟩) = .float ⟨0x3fe0000000000000⟩)
  obtain ⟨status, -, same⟩ := ofText?_ofError ⟨404, "Note 'n7' not found", some missedNote⟩ (by simpa using stored)
  refine ⟨status, same.mpr ?_⟩
  rintro _ ⟨⟩
  exact ⟨Json.noConfusion, by decide, reread⟩

theorem stored_boxedJson {count : Nat} : (Codec.boxedJson count).Everywhere Json.Stored := by
  induction count with
  | zero =>
      exact .intro trivial (List.forall_mem_nil _)
  | succ count inductionHypothesis =>
      exact .intro trivial (List.forall_mem_singleton.mpr inductionHypothesis)

/-- Not every error is read back: null is read as no data, data of too many arrays is refused, and for this double the reader
gets the one below. -/
theorem not_every_error_read_back :
    (¬ ∀ e : RpcError, (∀ data ∈ e.data, data.Everywhere Json.Stored) →
      ofText? (Http.Response.ofError e).body = some e) ∧
    ofText? (Http.Response.ofError ⟨400, "bad", some .null⟩).body = some ⟨400, "bad", none⟩ ∧
    ofText? (Http.Response.ofError ⟨400, "bad", some (Codec.boxedJson 126)⟩).body = none ∧
    ofText? (Http.Response.ofError ⟨400, "bad", some (.num (.float ⟨0x4095297fed4752ba⟩))⟩).body =
      some ⟨400, "bad", some (.num (.float ⟨0x4095297fed4752b9⟩))⟩ := by
  have read {data : Json} (stored : data.Everywhere Json.Stored) :=
    ofText?_compress (e := ⟨400, "bad", some data⟩) (by simpa using stored)
  have null : (Json.null).Everywhere Json.Stored :=
    .intro trivial (List.forall_mem_nil _)
  have double : (Json.num (.float ⟨0x4095297fed4752ba⟩)).Everywhere Json.Stored :=
    .intro (by decide : Binary64.isFinite ⟨0x4095297fed4752ba⟩ = true) (List.forall_mem_nil _)
  have below : Json.rereadNumber (.float ⟨0x4095297fed4752ba⟩) = .float ⟨0x4095297fed4752b9⟩ := by
    decide +kernel
  have nullRead := (read null).trans (if_pos (by simp [Json.depth, Json.maxNesting]))
  refine ⟨fun every => ?_, nullRead, (read stored_boxedJson).trans (if_neg ?_), (read double).trans ?_⟩
  · have same := nullRead.symm.trans (every _ (by simpa using null))
    simp [rereadData, Json.reread, readData] at same
  · simp [Codec.depth_boxedJson, Json.maxNesting]
  · rw [if_pos (by simp [Json.depth, Json.maxNesting]), rereadData, Option.bind_some, Json.reread, below]
    rfl

end SchemaRpc.RpcError
