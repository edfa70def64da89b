import SchemaRpc.Codec.Decode
import SchemaRpc.Typed.Reading

/-!
# Typed data on the wire

Bytes are decoded against a definition first, and what comes out is read as a datum of a type.
-/

namespace SchemaRpc.Codec

def decodeModel {n : Nat} (c : Codec) (types : TypeCatalog n) (bytes : ByteArray) (t : TypeDef) (ty : Ty n) :
    Except CodecError Datum := do
  Datum.ofValue types (← c.decode bytes t) ty

end SchemaRpc.Codec
