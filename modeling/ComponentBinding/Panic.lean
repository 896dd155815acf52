/-! Panics of code that the host supplies. -/
namespace ComponentBinding

/-- What a panic carries: a message, or something that is not text. -/
inductive PanicPayload where
  | text (message : String)
  | other
  deriving DecidableEq, Repr

def PanicPayload.message : PanicPayload → String
  | .text message => message
  | .other => "unknown panic"

end ComponentBinding
