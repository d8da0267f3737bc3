import Telegram.Bytes
import Telegram.Codec.Error
import Telegram.Value

/-!
# Readings and writings

What one read and one write amount to. A read leaves the bytes it did not use, also when it fails; a
write has its bytes appended, also when it fails after some of them.

A reading can succeed without a value: the buffer ended before one was complete.
-/

namespace Telegram.Codec

/-- The outcome of reading at the front of a buffer, and the bytes left unread. -/
structure Reading where
  result : Except Error (Option Value)
  rest : Bytes

/-- The outcome of writing, and the bytes appended. -/
structure Writing where
  bytes : Bytes
  result : Except Error Unit

namespace Reading

/-- A value was read. -/
def found (value : Value) (rest : Bytes) : Reading :=
  ⟨.ok (some value), rest⟩

/-- The buffer ended before a value was complete. -/
def absent (rest : Bytes) : Reading :=
  ⟨.ok none, rest⟩

def failed (error : Error) (rest : Bytes) : Reading :=
  ⟨.error error, rest⟩

/-- A value of another type than `type` becomes an error. -/
def expect (reading : Reading) (type : TypeExpr) : Reading :=
  match reading.result with
  | .ok (some value) => if value.type = type then reading else failed (.typeMismatch type) reading.rest
  | _ => reading

end Reading

namespace Writing

/-- The bytes were appended and all is well. -/
def done (bytes : Bytes) : Writing :=
  ⟨bytes, .ok ()⟩

def failed (error : Error) : Writing :=
  ⟨[], .error error⟩

/-- The writing with bytes of an earlier one in front. -/
def after (bytes : Bytes) (writing : Writing) : Writing :=
  { writing with bytes := bytes ++ writing.bytes }

end Writing

end Telegram.Codec
