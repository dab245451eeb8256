import LidarInterface.Foundation.Memory
import LidarInterface.Foundation.Wrap
import Mathlib.Data.List.FinRange

/-! `reader2.0/msop_parser.h` and `reader2.0/msop_parser.cpp`. A `float` is the rational it stands for, degrees for
    an azimuth and metres for a distance, and every operation on it is rounded by the arithmetic. `host` is the byte
    order of the machine that runs the code. -/

namespace LidarInterface.Reader2
open Foundation Arithmetic

structure MeasuringResult where
  distanceStrongest : UInt16
  rssiStrongest : UInt8
  distanceLast : UInt16
  rssiLast : UInt8

structure DataBlock where
  flag : UInt16
  azimuth : UInt16
  measurements : Fin 16 → MeasuringResult

structure MSOPTail where
  timestamp : UInt32
  factoryInfo : UInt16

structure MSOPPacket where
  dataBlocks : Fin 12 → DataBlock
  tail : MSOPTail

/-! The structs are packed, so a field is loaded from the sum of the sizes before it. -/

/-- `sizeof(MSOPPacket)`. -/
def sizeofMSOPPacket : Nat := 1206

def MeasuringResult.load (host : ByteOrder) (data : Memory) : MeasuringResult where
  distanceStrongest := data.load16 host 0
  rssiStrongest := data 2
  distanceLast := data.load16 host 3
  rssiLast := data 5

def DataBlock.load (host : ByteOrder) (data : Memory) : DataBlock where
  flag := data.load16 host 0
  azimuth := data.load16 host 2
  measurements i := .load host (data.shift (4 + 6 * i))

def MSOPTail.load (host : ByteOrder) (data : Memory) : MSOPTail where
  timestamp := data.load32 host 0
  factoryInfo := data.load16 host 4

/-- `reinterpret_cast<const MSOPPacket*>(data)`. -/
def MSOPPacket.load (host : ByteOrder) (data : Memory) : MSOPPacket where
  dataBlocks b := .load host (data.shift (100 * b))
  tail := .load host (data.shift 1200)

structure LidarPoint where
  azimuth : ℚ
  distance : ℚ
  rssi : UInt8
  isValid : Bool
  isStrongest : Bool
  deriving DecidableEq

structure MSOPParser where
  lastTimestamp : UInt32 := 0
  lastFactoryInfo : UInt16 := 0
  deriving DecidableEq

theorem turn_pos : (0 : ℚ) < 360 := by norm_num

theorem succ_lt {b : Fin 12} (h : b.val < 11) : b.val + 1 < 12 := by omega

/-- The step between two measurements of a block, in hundredths of a degree: a sixteenth of the difference
    to the next block, truncated, or the driver's default. -/
def resolution (blockAzimuth nextBlockAzimuth : UInt16) : Int :=
  if (nextBlockAzimuth.toNat : Int) - blockAzimuth.toNat > 0 then
    ((nextBlockAzimuth.toNat : Int) - blockAzimuth.toNat).tdiv 16
  else
    25

section
variable [Arithmetic]

def calculateAzimuth (blockAzimuth nextBlockAzimuth : UInt16) (measurementIndex : Nat) : ℚ :=
  -- The `int` sum is narrowed to `uint16_t`.
  let calculatedAzimuth : UInt16 :=
    .ofInt (blockAzimuth.toNat + resolution blockAzimuth nextBlockAzimuth * measurementIndex)
  Wrap.normalize float turn_pos (float ((calculatedAzimuth.toNat : ℚ) / 100))

def isValidAzimuth (azimuth : ℚ) : Bool := decide (azimuth ≥ 0) && decide (azimuth ≤ 360)

def isValidDistance (distance : ℚ) : Bool := decide (distance ≥ float (1 / 10)) && decide (distance ≤ 15)

variable (host : ByteOrder)

def be16ToHost (value : UInt16) : UInt16 := host.ntohs value

def be32ToHost (value : UInt32) : UInt32 := host.ntohl value

def isValidDataBlock (block : DataBlock) : Bool :=
  let flag := be16ToHost host block.flag
  let azimuth := be16ToHost host block.azimuth
  flag == 0xFFEE && azimuth != 0xFFFF

/-- The azimuth that block `blockIdx` is interpolated towards: its successor's, or its own when there is no
    valid successor in the packet. -/
def nextAzimuth (packet : MSOPPacket) (blockIdx : Fin 12) : UInt16 :=
  let currentAzimuth := be16ToHost host (packet.dataBlocks blockIdx).azimuth
  if h : blockIdx.val < 11 then
    let nextBlock := packet.dataBlocks ⟨blockIdx + 1, succ_lt h⟩
    if isValidDataBlock host nextBlock then be16ToHost host nextBlock.azimuth else currentAzimuth
  else
    currentAzimuth

/-- The part the two returns share: the point is pushed if its azimuth and distance are in range. -/
def pushPoint (currentAzimuth nextAzimuth : UInt16) (measIdx : Fin 16) (distanceRaw : UInt16) (rssi : UInt8)
    (isStrongest : Bool) (points : List LidarPoint) : List LidarPoint :=
  let azimuth := calculateAzimuth currentAzimuth nextAzimuth measIdx
  let distance := float ((distanceRaw.toNat : ℚ) / 1000)
  if isValidAzimuth azimuth && isValidDistance distance then
    points ++ [{ azimuth, distance, rssi, isValid := true, isStrongest }]
  else
    points

def parseMeasurement (currentAzimuth nextAzimuth : UInt16) (measurement : MeasuringResult) (measIdx : Fin 16)
    (points : List LidarPoint) : List LidarPoint :=
  let distanceStrongest := be16ToHost host measurement.distanceStrongest
  let points :=
    if distanceStrongest ≠ 0 ∧ distanceStrongest ≠ 0xFFFF then
      pushPoint currentAzimuth nextAzimuth measIdx distanceStrongest measurement.rssiStrongest true points
    else
      points
  let distanceLast := be16ToHost host measurement.distanceLast
  if distanceLast ≠ 0 ∧ distanceLast ≠ 0xFFFF ∧ distanceLast ≠ distanceStrongest then
    pushPoint currentAzimuth nextAzimuth measIdx distanceLast measurement.rssiLast false points
  else
    points

def parseBlock (packet : MSOPPacket) (points : List LidarPoint) (blockIdx : Fin 12) : List LidarPoint :=
  let currentBlock := packet.dataBlocks blockIdx
  if !isValidDataBlock host currentBlock then
    points
  else
    let currentAzimuth := be16ToHost host currentBlock.azimuth
    let nextAzimuth := nextAzimuth host packet blockIdx
    (List.finRange 16).foldl (fun points measIdx =>
      parseMeasurement host currentAzimuth nextAzimuth (currentBlock.measurements measIdx) measIdx points) points

/-- What a call leaves behind: the returned flag, the parser, and the caller's vector. -/
structure ParseResult where
  ok : Bool
  parser : MSOPParser
  points : List LidarPoint
  deriving DecidableEq

def MSOPParser.parsePacket (self : MSOPParser) (data : Memory) (size : Nat) (_points : List LidarPoint) :
    ParseResult :=
  let points := []
  if size ≠ sizeofMSOPPacket then
    { ok := false, parser := self, points }
  else
    let packet := MSOPPacket.load host data
    let self :=
      { self with
        lastTimestamp := be32ToHost host packet.tail.timestamp
        lastFactoryInfo := be16ToHost host packet.tail.factoryInfo }
    { ok := true, parser := self, points := (List.finRange 12).foldl (parseBlock host packet) points }

def isLastPacket (packet : MSOPPacket) : Bool :=
  (List.finRange 12).all fun i => decide (i.val < 6) || be16ToHost host (packet.dataBlocks i).flag == 0xFFFF

end
end LidarInterface.Reader2
