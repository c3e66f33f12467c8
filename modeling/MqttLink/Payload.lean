/-!
Message bodies. Only its size decides what happens to a body; its bytes are passed on unread.
-/

namespace MqttLink

/-- Bytes of a message. A run of zeros is kept as its length, however long it is. -/
inductive Payload
  | bytes (data : ByteArray)
  | zeros (count : Nat)

namespace Payload

/-- Most bytes that a published message may carry. -/
def maxSize : Nat := 268435455

def size : Payload → Nat
  | bytes data => data.size
  | zeros n => n

def toList : Payload → List UInt8
  | bytes data => data.toList
  | zeros n => List.replicate n 0

def empty : Payload := zeros 0

instance : Inhabited Payload := ⟨empty⟩

end Payload

end MqttLink
