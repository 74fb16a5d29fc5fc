/-!
# Responses: the body

* `Chunk`   what one read of a body gives
* `readAll`   the octets of a body, or the failure of a read
* `isBlank`   whether a body holds nothing but white space
-/

namespace GraphQLCall.Body

/-- **What one read of a body gives:** octets, of which none mean that the body has ended; nothing,
the read having been interrupted; or a failure. -/
inductive Chunk where
  | data (octets : List UInt8)
  | interrupted
  | failed (message : String)

/-- **The octets of a body,** or the failure of a read.  An interrupted read is made again. -/
def readAll : List Chunk → Except String (List UInt8)
  | [] => .ok []
  | .data octets :: rest =>
    if octets.isEmpty then .ok []
    else
      match readAll rest with
      | .ok more => .ok (octets ++ more)
      | .error message => .error message
  | .interrupted :: rest => readAll rest
  | .failed message :: _ => .error message

/-- an octet of white space: a blank, a tab, or the end of a line or page -/
def isSpace (b : UInt8) : Bool := b = 0x20 || b = 0x09 || b = 0x0A || b = 0x0C || b = 0x0D

def isBlank (octets : List UInt8) : Bool := octets.all isSpace

end GraphQLCall.Body
