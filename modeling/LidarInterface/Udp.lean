import LidarInterface.Foundation.Memory

/-! Receiving a datagram, as every reader of the repository does it: `recvfrom` copies at most `bufferSize`
    bytes of the datagram to the start of the buffer, drops the rest of it, and returns the number of bytes
    copied, or -1 on an error. -/

namespace LidarInterface
open Foundation

inductive Recv where
  | error
  | datagram (bytes : List UInt8)
  deriving DecidableEq

namespace Recv

def datagram? : Recv → Option (List UInt8)
  | error => none
  | datagram bytes => some bytes

end Recv

/-- The buffer after the call, and the value returned. -/
def recvfrom (buffer : Memory) (bufferSize : Nat) : Recv → Memory × Int
  | .error => (buffer, -1)
  | .datagram bytes => (buffer.write bytes (min bytes.length bufferSize), min bytes.length bufferSize)

theorem recvfrom_datagram (buffer : Memory) (bufferSize : Nat) (bytes : List UInt8) :
    recvfrom buffer bufferSize (.datagram bytes) =
      (buffer.write bytes (min bytes.length bufferSize), ((min bytes.length bufferSize : Nat) : Int)) := by
  refine congrArg (Prod.mk _) ?_
  omega

end LidarInterface
