import LidarInterface.Foundation.Loop
import LidarInterface.Reader2.Receive

/-! What the receive loop of `reader2.0/main.cpp` prints, on `std::cout` and for a failed call on `std::cerr`. The lines
    are data: the texts between the values are left out. -/

namespace LidarInterface.Reader2
open Foundation Arithmetic

variable [Arithmetic]

def isReliable (point : LidarPoint) : Bool :=
  point.isValid && decide (point.distance > float (1 / 10)) && decide (point.distance < 13) && decide (point.rssi > 25)

/-- The variables that the loop of `printPacketInfo` changes. -/
structure Reliable where
  reliablePoints : Nat := 0
  filteredPoints : List LidarPoint := []

def Reliable.step (acc : Reliable) (point : LidarPoint) : Reliable :=
  if isReliable point then
    { reliablePoints := acc.reliablePoints + 1
      filteredPoints :=
        if acc.filteredPoints.length < 5 then acc.filteredPoints ++ [point] else acc.filteredPoints }
  else
    acc

structure PacketInfo where
  timestamp : UInt32
  factoryInfo : UInt16
  pointCount : Nat
  reliablePoints : Nat
  examples : List LidarPoint
  more : Option Nat
  deriving DecidableEq

def printPacketInfo (points : List LidarPoint) (timestamp : UInt32) (factoryInfo : UInt16) : PacketInfo :=
  let acc := points.foldl Reliable.step {}
  { timestamp, factoryInfo
    pointCount := points.length
    reliablePoints := acc.reliablePoints
    examples := acc.filteredPoints
    more := if acc.reliablePoints > 5 then some (acc.reliablePoints - 5) else none }

structure RangeStats where
  minDist : ℚ := 999
  maxDist : ℚ := 0
  minAzim : ℚ := 999
  maxAzim : ℚ := 0
  deriving DecidableEq

def RangeStats.step (stats : RangeStats) (point : LidarPoint) : RangeStats where
  minDist := min stats.minDist point.distance
  maxDist := max stats.maxDist point.distance
  minAzim := min stats.minAzim point.azimuth
  maxAzim := max stats.maxAzim point.azimuth

inductive Shown where
  | receiveError
  | packet (number receivedSize : Nat)
  | msopPacket
  | msopPacketWithHeader
  | info (info : PacketInfo)
  | rangeStats (stats : RangeStats)
  | failed
  | unexpectedSize (receivedSize : Nat) (firstBytes : List UInt8)
  deriving DecidableEq

/-- The lines of one iteration of the loop. -/
def Receiver.print (host : ByteOrder) (st : Receiver) (r : Recv) : List Shown :=
  match receivePacket st.buffer r with
  | (_, none) => [Shown.receiveError]
  | (buffer, some receivedSize) =>
    let packetCount := st.packetCount + 1
    Shown.packet packetCount receivedSize ::
      if receivedSize = 1206 then
        let result := st.parser.parsePacket host buffer receivedSize st.points
        Shown.msopPacket ::
          if result.ok then
            Shown.info (printPacketInfo result.points result.parser.lastTimestamp result.parser.lastFactoryInfo) ::
              -- The range statistics are shown for the first few packets.
              if packetCount ≤ 5 ∧ result.points ≠ [] then
                [Shown.rangeStats (result.points.foldl RangeStats.step {})]
              else
                []
          else
            [Shown.failed]
      else if receivedSize = 1248 then
        let result := st.parser.parsePacket host (buffer.shift 42) (receivedSize - 42) st.points
        Shown.msopPacketWithHeader ::
          if result.ok then
            [Shown.info (printPacketInfo result.points result.parser.lastTimestamp result.parser.lastFactoryInfo)]
          else
            [Shown.failed]
      else
        [Shown.unexpectedSize receivedSize (buffer.bytes (min receivedSize 16))]

def viewer (host : ByteOrder) : Loop Receiver Recv Shown where
  step := Receiver.step host
  out := Receiver.print host

end LidarInterface.Reader2
