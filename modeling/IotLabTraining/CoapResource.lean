import IotLabTraining.Buffers

/-!
# Resource handlers of the CoAP example server

What a handler leaves to the engine: the response it has filled in, the buffer it was
given for the payload, and the offset where the next block begins. The engine sets
the more flag of a response unless the offset is -1.
-/
namespace IotLabTraining.CoapResource
open Buffers

inductive Status where
  | content
  | badOption
  | notAcceptable
  deriving DecidableEq

def TEXT_PLAIN : UInt16 := 0
def APPLICATION_XML : UInt16 := 41
def APPLICATION_JSON : UInt16 := 50

/-- The sizes of a Block2 option. -/
def blockSize (szx : ℕ) : ℕ := 2 ^ (szx + 4)

theorem blockSize_pos (szx : ℕ) : 0 < blockSize szx := Nat.pow_pos (by omega)

/-- A response as a handler leaves it; what it did not set is `none`. -/
structure Response where
  statusCode : Option Status := none
  contentFormat : Option UInt16 := none
  maxAge : Option ℕ := none
  payload : Bytes
  buffer : Buffer
  offset : ℤ

/-- The more flag the engine puts into the response. -/
def Response.more (r : Response) : Bool := r.offset != -1

/-- The answer to a block behind the end of a resource. -/
def blockOutOfScope (buffer : Buffer) (offset : ℤ) : Response where
  statusCode := some .badOption
  payload := ascii "BlockOutOfScope"
  buffer := buffer
  offset := offset

end IotLabTraining.CoapResource
