import PiEnv.Lib.Base64
import PiEnv.Lib.JsonRoundTrip

/-!
# Packed JSON values

The text of a JSON value in base64, as opaque cursors are made.
-/

namespace Js

/-- The text of a value, in UTF-8, in base64. -/
def packJson (value : Json) : Str := Base64.encodeUrl (Utf8.encode (stringify value))

def unpackJson (cursor : Str) : Option Json := parse (Utf8.decode (Base64.decode cursor))

theorem unpackJson_packJson {value : Json} (h : Plain value) :
    unpackJson (packJson value) = some value := by
  rw [unpackJson, packJson, Base64.decode_encodeUrl, Utf8.decode_encode (isWellFormed_stringify value),
    parse_stringify_self h]

end Js
