import LidarInterface.Foundation.Hex
import LidarInterface.Foundation.Loop
import LidarInterface.Slam.MSOPParser
import LidarInterface.Udp

/-! The programs of `slam_lidar_cpp/src` that print what they receive: `dump_packets.cpp` the bytes of every datagram,
    `dump_msop.cpp` and `read_packets.cpp` some fields of one. Opening the socket and its errors are left out. The
    names `BlockID`, `DataFlag`, `Azimuth`, `Result`, `Dist_1` and `RSSI_1` are read as the fields of `data_type.h`,
    as in `lidar_reader.cpp`. -/

namespace LidarInterface.Slam
open Foundation

/-! ### dump_packets.cpp -/

namespace DumpPackets

/-- `BUFLEN`. -/
def buflen : Nat := 1248

/-- The base in which `std::cout` writes integers, `std::dec` or `std::hex`, outlives an iteration of the loop. -/
structure Dumper where
  buffer : Memory
  base : Nat := 10

/-- The bytes of the buffer up to `len`, at most 64, in rows of 16. -/
def rows (buffer : Memory) (len : Nat) : List Char := Hex.dump 16 (buffer.bytes (min 64 len))

def packetText (base len : Nat) (rows : List Char) : List Char :=
  "\n Packet (".toList ++ Nat.toDigits base len ++ " bytes):\n".toList ++ rows ++
    "\n-----------------------------------------\n".toList

def Dumper.step (st : Dumper) (r : Recv) : Dumper :=
  let (buffer, len) := recvfrom st.buffer buflen r
  -- The rows leave the stream in `std::hex`.
  if len ≤ 0 then { st with buffer } else { buffer, base := 16 }

def Dumper.out (st : Dumper) (r : Recv) : List (List Char) :=
  let (buffer, len) := recvfrom st.buffer buflen r
  if len ≤ 0 then [] else [packetText st.base len.toNat (rows buffer len.toNat)]

def main : Loop Dumper Recv (List Char) where
  step := Dumper.step
  out := Dumper.out

end DumpPackets

/-! ### dump_msop.cpp -/

/-- Both programs print the first four measurements of a block. -/
theorem four_le : 4 ≤ 16 := by decide

namespace DumpMsop

structure BlockLines where
  flag : UInt16
  azimuthDegrees : ℚ
  returns : Fin 4 → UInt16 × UInt8

structure Output where
  received : Int
  blocks : Fin 12 → BlockLines

section
variable (host : ByteOrder)

/-- The flag and the azimuth of a block, and the first four distances and signal strengths. -/
def blockLines (blk : DataBlock) : BlockLines where
  flag := host.ntohs blk.flag
  azimuthDegrees := ((host.ntohs blk.azimuth).toNat : ℚ) / 100
  returns i :=
    let result := blk.results (i.castLE four_le)
    (host.ntohs result.strongestReturn.distance, result.strongestReturn.rssi)

/-- `pkt` is an uninitialised local. The length received is printed, but only an error is tested. -/
def main (pkt : Memory) (r : Recv) : Except String Output :=
  let (pkt, n) := recvfrom pkt sizeofMSOPPacket r
  if n < 0 then
    .error "recvfrom"
  else
    let packet := MSOPPacket.load host pkt
    .ok { received := n, blocks := fun b => blockLines host (packet.blocks b) }

end
end DumpMsop

/-! ### read_packets.cpp -/

namespace ReadPackets

structure Output where
  received : Int
  flag : UInt16
  azimuth : UInt16
  returns : Fin 4 → UInt16 × UInt8

section
variable (host : ByteOrder)

/-- Fields of block 0 as they were loaded, without a byte swap. -/
def main (packet : Memory) (r : Recv) : Except String Output :=
  let (packet, n) := recvfrom packet sizeofMSOPPacket r
  if n < 0 then
    .error "recvfrom"
  else
    let block := (MSOPPacket.load host packet).blocks firstBlock
    .ok {
      received := n
      flag := block.flag
      azimuth := block.azimuth
      returns := fun i =>
        let res := block.results (i.castLE four_le)
        (res.strongestReturn.distance, res.strongestReturn.rssi) }

end
end ReadPackets

end LidarInterface.Slam
