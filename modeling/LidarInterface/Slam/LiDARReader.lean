import LidarInterface.Slam.MSOPParser
import LidarInterface.Udp
import Mathlib.Order.WithBot
import Mathlib.Logic.Function.Basic

/-! `slam_lidar_cpp/src/lidar_reader.hpp` and `slam_lidar_cpp/src/lidar_reader.cpp`. The names `BlockID`,
    `DataFlag`, `Azimuth`, `Result`, `Dist_1` and `RSSI_1` are read as the fields `blocks`, `flag`, `azimuth`,
    `results`, `strongest_return.distance` and `strongest_return.rssi` of `data_type.h`. Operations on `double` are
    rounded by the arithmetic, but for `fmod`, which is exact. An angle is kept in degrees, without the last factor
    `M_PI / 180`, and infinity is `⊤`. -/

namespace LidarInterface.Slam
open Foundation Arithmetic

structure ScanPoint where
  angle : ℚ
  range : WithTop ℚ
  intensity : ℚ
  deriving DecidableEq

abbrev Scan := Fin 192 → ScanPoint

structure LiDARReader where
  angleOffset : Int := 0
  inverted : Bool := false

/-- `LiDARReader::recvPacket`, into the packet `buf`. -/
def recvPacket (buf : Memory) (r : Recv) : Except String Memory :=
  let (buf, n) := recvfrom buf sizeofMSOPPacket r
  if n < 0 ∨ n ≠ sizeofMSOPPacket then .error "recvfrom error or incomplete packet" else .ok buf

section
variable (host : ByteOrder)

/-- A block with its flag, azimuth and strongest distances in host byte order. -/
def swapBlock (blk : DataBlock) : DataBlock where
  flag := host.ntohs blk.flag
  azimuth := host.ntohs blk.azimuth
  results i :=
    { blk.results i with
      strongestReturn :=
        { (blk.results i).strongestReturn with distance := host.ntohs (blk.results i).strongestReturn.distance } }

end

section
variable [Arithmetic]

/-- The azimuth increment between two beams, in degrees, from the first two blocks. -/
def stepDeg (blocks : Fin 12 → DataBlock) : ℚ :=
  let raw0 : Int := (blocks 0).azimuth.toNat
  let raw1 : Int := (blocks 1).azimuth.toNat
  let diff100 := (raw1 - raw0 + 36000).tmod 36000
  double (double ((diff100 : ℚ) / 100) / 16)

namespace LiDARReader
variable (self : LiDARReader)

def beam (blocks : Fin 12 → DataBlock) (b : Fin 12) (i : Fin 16) : ScanPoint :=
  let blk := blocks b
  let baseDeg := double (double ((blk.azimuth.toNat : ℚ) / 100) + self.angleOffset)
  let rawDeg := Wrap.fmod (double (baseDeg + double (stepDeg blocks * i))) 360
  let rawDeg := if rawDeg < 0 then double (rawDeg + 360) else rawDeg
  let distM := double (((blk.results i).strongestReturn.distance.toNat : ℚ) / 1000)
  let intensity := ((blk.results i).strongestReturn.rssi.toNat : ℚ)
  if blk.flag ≠ 0xFFEE ∨ distM ≤ 0 then
    { angle := rawDeg, range := ⊤, intensity := 0 }
  else
    { angle := rawDeg, range := (distM : WithTop ℚ), intensity }

def slot (b : Fin 12) (i : Fin 16) : Fin 192 :=
  let idx : Fin 192 := ⟨b * 16 + i, by omega⟩
  if self.inverted then ⟨192 - 1 - idx, by omega⟩ else idx

/-- The scan that `readScan` fills from a received packet. -/
def decodeScan (host : ByteOrder) (packet : MSOPPacket) : Scan :=
  let blocks := fun b => swapBlock host (packet.blocks b)
  let scan : Scan := fun _ => { angle := 0, range := (0 : ℚ), intensity := 0 }
  (List.finRange 12).foldl (fun scan b =>
    (List.finRange 16).foldl (fun scan i => Function.update scan (self.slot b i) (self.beam blocks b i)) scan) scan

/-- `packet` is an uninitialised local, so its bytes before the call are the argument `buf`. -/
def readScan (host : ByteOrder) (buf : Memory) (r : Recv) : Except String Scan := do
  let packet ← recvPacket buf r
  return self.decodeScan host (.load host packet)

end LiDARReader

end
end LidarInterface.Slam
