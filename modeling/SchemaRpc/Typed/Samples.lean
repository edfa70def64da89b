import SchemaRpc.Typed.Source

/-!
# Sample types

A catalog of declared types that between them use every kind of field, wrapper, rename rule and option.
-/

namespace SchemaRpc.Samples

abbrev size : Nat := 25

abbrev SampleTy := Ty size

def plain (ident : String) (type : SampleTy) : FieldSource size :=
  { ident, type }

def spellings (ident : String) (rule : RenameRule) : TypeSource size where
  ident
  renameAll := some rule
  body := .variants
    ([{ ident := "Low" }, { ident := "OnHold" }, { ident := "HTTPServer" }, { ident := "Port8080Open" },
      { ident := "X1Y" }, { ident := "Été" }, { ident := "lowerCase" }, { ident := "Snake_Case" },
      { ident := "Kept", rename := some "As-Is" }])

def at_ (slot : Fin size) : SampleTy := .declared slot

def sources : Vector (TypeSource size) size := #v[
  { ident := "Plain"
    body := .variants
      [{ ident := "A" }, { ident := "OnHold" }, { ident := "Other", rename := some "renamed value" }] },
  spellings "Lower" .lower,
  spellings "Upper" .upper,
  spellings "Camel" .camel,
  spellings "Snake" .snake,
  spellings "Screaming" .screamingSnake,
  spellings "Kebab" .kebab,
  { ident := "Ruled"
    body := .fields [plain "plain" (at_ 0), plain "lower" (at_ 1), plain "upper" (at_ 2), plain "camel" (at_ 3),
      plain "snake" (at_ 4), plain "screaming" (.optional (at_ 5)), plain "kebab" (.list (at_ 6))] },
  { ident := "Mixed"
    renameAll := some .screamingSnake
    discriminator := "event_type"
    body := .variants
      [{ ident := "FirstOne", fields := some [plain "value_of" (at_ 0)] },
        { ident := "SecondABC" },
        { ident := "Third"
          rename := some "third"
          fields := some
            [plain "type" .bool,
              { ident := "other", type := .optional (.int .int64), rename := some "Re-Named key" }] }] },
  { ident := "Priority"
    renameAll := some .lower
    comment := [" Importance of a note."]
    body := .variants [{ ident := "Low" }, { ident := "High" }] },
  { ident := "Location"
    anonymous := true
    body := .fields [plain "lat" .float64, plain "lon" .float32] },
  { ident := "Note"
    comment := [" A stored note.", "", " Second paragraph."]
    body := .fields
      [plain "id" .string, plain "title" .string, plain "priority" (at_ 9), plain "created_at" .timestamp,
        { ident := "tags", type := .list .string, comment := [" Free-form labels."] },
        plain "archived_at" (.option .timestamp), plain "location" (.optional (at_ 10)),
        { ident := "revision", type := .int .uint64, rename := some "etag" },
        { ident := "legacy_color", type := .optional .string, deprecated := true }] },
  { ident := "NoteEvent"
    discriminator := "kind"
    renameAll := some .snake
    body := .variants
      [{ ident := "NoteCreated", fields := some [plain "note" (at_ 11)] },
        { ident := "NoteDeleted", fields := some [plain "id" .string] },
        { ident := "Cleared", rename := some "WIPED" }] },
  { ident := "TreeNode"
    body := .fields [plain "label" .string, plain "children" (.list (at_ 13))] },
  { ident := "PatchNote"
    body := .fields
      [plain "id" .string, plain "title" (.field .string), plain "type" (.optional (.int .int8)),
        plain "both" (.optional (.option .bool)), plain "maybe" (.option (at_ 14))] },
  { ident := "Nothing", body := .fields [] },
  { ident := "Holder"
    name := some "Renamed.Holder"
    comment := [" Old."]
    deprecated := true
    body := .fields
      [{ ident := "last_event", type := at_ 12, comment := [" The event."] },
        plain "by_name" (.map (.list (at_ 12))), plain "hashed" (.map (at_ 17)), plain "blob" .json,
        plain "counts" (.list (.int .uint16)), plain "ints" (at_ 18)] },
  { ident := "Optional8", body := .fields [plain "v" (.optional (.int .uint8))] },
  { ident := "Ints"
    body := .fields
      [plain "a" (.int .int8), plain "b" (.int .uint8), plain "c" (.int .int16), plain "d" (.int .uint16),
        plain "e" (.int .int32), plain "f" (.int .uint32), plain "g" (.int .int64), plain "h" (.int .uint64)] },
  { ident := "Shapes"
    body := .variants
      [{ ident := "Circle", fields := some [plain "radius_m" .float64] },
        { ident := "Empty", comment := [" Unit variant of a union."] },
        { ident := "Nested"
          fields := some [plain "inner" (at_ 19), plain "spot" (.option (at_ 10))] }] },
  { ident := "Wide", body := .fields [plain "ok" .bool, plain "nested" (.option (at_ 21))] },
  { ident := "WideInner", body := .fields [plain "items" (.list (.wide .signed))] },
  { ident := "BadOptional", body := .fields [plain "list" (.list (.optional (.int .uint8)))] },
  { ident := "UnitField", body := .fields [plain "nothing" .unit] },
  { ident := "SearchParams"
    comment := [" Query-friendly."]
    body := .fields
      [plain "q" .string, plain "page_size" (.optional (.int .uint32)), plain "tags" (.list .string),
        plain "prio" (.option (at_ 9))] }]

def types : TypeCatalog size :=
  sources.mapFinIdx fun i source _ => source.declaration i

def ofIdent? (ident : String) : Option SampleTy :=
  ((List.finRange size).find? fun slot => (sources.get slot).ident == ident).map Ty.declared

end SchemaRpc.Samples
