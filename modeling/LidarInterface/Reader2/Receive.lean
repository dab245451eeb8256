import LidarInterface.Reader2.MSOPParser
import LidarInterface.Udp

/-! The receive loop of `reader2.0/main.cpp`, and the `receivePacket` that it and `lidar_visualizer.cpp`
    each declare with the same body. What is printed is left out. -/

namespace LidarInterface.Reader2
open Foundation

/-- `sizeof(buffer)` of `uint8_t buffer[2048]`. -/
def bufferSize : Nat := 2048

/-- The buffer after the call, and the size received unless the call failed. -/
def receivePacket (buffer : Memory) (r : Recv) : Memory × Option Nat :=
  let (buffer, bytesReceived) := recvfrom buffer bufferSize r
  if bytesReceived < 0 then (buffer, none) else (buffer, some bytesReceived.toNat)

/-- The pointer and the size that the loop hands to the parser, for the sizes it accepts. -/
def dispatch (buffer : Memory) (receivedSize : Nat) : Option (Memory × Nat) :=
  if receivedSize = 1206 then
    some (buffer, receivedSize)
  else if receivedSize = 1248 then
    -- The first 42 bytes are the UDP header.
    some (buffer.shift 42, receivedSize - 42)
  else
    none

/-- The variables of `main` that live across the iterations of its loop. `packet_count` is an `int`, which counts to
    `2 ^ 31 - 1`. -/
structure Receiver where
  buffer : Memory
  parser : MSOPParser := {}
  points : List LidarPoint := []
  packetCount : Nat := 0

def Receiver.step [Arithmetic] (host : ByteOrder) (st : Receiver) (r : Recv) : Receiver :=
  match receivePacket st.buffer r with
  | (buffer, none) => { st with buffer }
  | (buffer, some receivedSize) =>
    let st := { st with buffer, packetCount := st.packetCount + 1 }
    match dispatch buffer receivedSize with
    | none => st
    | some (data, size) =>
      let result := st.parser.parsePacket host data size st.points
      { st with parser := result.parser, points := result.points }

end LidarInterface.Reader2
