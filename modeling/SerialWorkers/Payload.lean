/-!
# What a panicking job leaves behind

A job that panics carries a payload out of the wreck.  Only a payload that is a
text can be read back; anything else is reported by one fixed phrase.

* `Payload.message` — the text a payload is reported by.
-/

namespace SerialWorkers

/-- What a panic carries. -/
inductive Payload where
  /-- A text fixed when the program was written. -/
  | literal (text : String)
  /-- A text built while the program ran. -/
  | built (text : String)
  /-- Anything that is not a text. -/
  | other
  deriving Repr, DecidableEq

/-- A text built from `value` and the number of bytes it takes in UTF-8. -/
def Payload.measured (value : String) : Payload :=
  .built (value ++ "-" ++ toString value.utf8ByteSize)

/-- The text a payload is reported by. -/
def Payload.message : Payload → String
  | .literal text => text
  | .built text => text
  | .other => "non-string panic payload"

end SerialWorkers
