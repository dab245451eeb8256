import LidarInterface.Foundation.Memory
import LidarInterface.Foundation.Wrap
import Mathlib.Data.List.FinRange

/-! `slam_lidar_cpp/src/msop_parser.cpp`, with the packed structs it shares with `data_type.h`. A `double` is the
    rational it stands for, degrees for an azimuth and metres for a distance, and every operation on it is rounded by
    the arithmetic. -/

namespace LidarInterface.Slam
open Foundation Arithmetic

structure ReturnData where
  distance : UInt16
  rssi : UInt8

structure MeasuringResult where
  strongestReturn : ReturnData
  lastReturn : ReturnData

structure DataBlock where
  flag : UInt16
  azimuth : UInt16
  results : Fin 16 → MeasuringResult

structure MSOPPacket where
  blocks : Fin 12 → DataBlock
  timestamp : UInt32
  factory : UInt16

/-- `sizeof(MSOPPacket)`, also `PACKET_SIZE` of `data_type.h`. -/
def sizeofMSOPPacket : Nat := 1206

def ReturnData.load (host : ByteOrder) (data : Memory) : ReturnData where
  distance := data.load16 host 0
  rssi := data 2

def MeasuringResult.load (host : ByteOrder) (data : Memory) : MeasuringResult where
  strongestReturn := .load host data
  lastReturn := .load host (data.shift 3)

def DataBlock.load (host : ByteOrder) (data : Memory) : DataBlock where
  flag := data.load16 host 0
  azimuth := data.load16 host 2
  results i := .load host (data.shift (4 + 6 * i))

/-- `reinterpret_cast<const MSOPPacket*>(raw_data)`. -/
def MSOPPacket.load (host : ByteOrder) (data : Memory) : MSOPPacket where
  blocks b := .load host (data.shift (100 * b))
  timestamp := data.load32 host 1200
  factory := data.load16 host 1204

structure ParsedPoint where
  azimuthDegrees : ℚ
  distanceMeters : ℚ
  rssi : UInt8
  isValid : Bool
  useStrongestReturn : Bool
  deriving DecidableEq

/-- The flag of a valid block as a little-endian load sees it. -/
def validFlag : UInt16 := 0xEEFF

theorem turn_pos : (0 : ℚ) < 360 := by norm_num

theorem succ_lt {b : Fin 12} (h : b.val < 11) : b.val + 1 < 12 := by omega

theorem pred_lt (b : Fin 12) : b.val - 1 < 12 := by omega

theorem blocks_pos : 0 < 12 := by decide

/-- `blocks[0]`. -/
abbrev firstBlock : Fin 12 := ⟨0, blocks_pos⟩

/-- The flag is compared as it was loaded, without a byte swap. -/
def isValidBlock (block : DataBlock) : Bool := block.flag == validFlag

section
variable [Arithmetic]

def calculatePointAzimuth (currentAzimuth nextAzimuth : ℚ) (pointIndex : Int) : ℚ :=
  if pointIndex < 0 ∨ pointIndex ≥ 16 then
    currentAzimuth
  else
    let angleDiff := double (nextAzimuth - currentAzimuth)
    let angleDiff :=
      if angleDiff < -180 then double (angleDiff + 360)
      else if angleDiff > 180 then double (angleDiff - 360)
      else angleDiff
    let angleIncrement := double (angleDiff / 16)
    Wrap.normalize double turn_pos (double (currentAzimuth + double (angleIncrement * pointIndex)))

variable (host : ByteOrder)

def ntoh16 (value : UInt16) : UInt16 := host.ntohs value

def ntoh32 (value : UInt32) : UInt32 := host.ntohl value

def getAzimuthDegrees (block : DataBlock) : ℚ := double (((ntoh16 host block.azimuth).toNat : ℚ) / 100)

def getDistanceMeters (returnData : ReturnData) : ℚ :=
  let distanceRaw := ntoh16 host returnData.distance
  if distanceRaw = 0 ∨ distanceRaw = 0xFFFF then 0 else double ((distanceRaw.toNat : ℚ) / 1000)

/-- The azimuth that block `blockIdx` is interpolated towards: its successor's; for the last block of the
    packet its own, moved on by the difference to a valid predecessor; otherwise its own. -/
def nextAzimuth (packet : MSOPPacket) (blockIdx : Fin 12) : ℚ :=
  let currentAzimuth := getAzimuthDegrees host (packet.blocks blockIdx)
  if h : blockIdx.val < 11 then
    let nextBlock := packet.blocks ⟨blockIdx + 1, succ_lt h⟩
    if isValidBlock nextBlock then getAzimuthDegrees host nextBlock else currentAzimuth
  else if blockIdx.val > 0 then
    let prevBlock := packet.blocks ⟨blockIdx - 1, pred_lt blockIdx⟩
    if isValidBlock prevBlock then
      let prevAzimuth := getAzimuthDegrees host prevBlock
      let increment := double (currentAzimuth - prevAzimuth)
      let increment :=
        if increment < -180 then double (increment + 360)
        else if increment > 180 then double (increment - 360)
        else increment
      double (currentAzimuth + increment)
    else
      currentAzimuth
  else
    currentAzimuth

def parsePoint (currentAzimuth nextAzimuth : ℚ) (result : MeasuringResult) (pointIdx : Fin 16)
    (points : List ParsedPoint) : List ParsedPoint :=
  let pointAzimuth := calculatePointAzimuth currentAzimuth nextAzimuth pointIdx
  let strongestDistance := getDistanceMeters host result.strongestReturn
  let points :=
    if strongestDistance > 0 then
      points ++ [{
        azimuthDegrees := pointAzimuth
        distanceMeters := strongestDistance
        rssi := result.strongestReturn.rssi
        isValid := true
        useStrongestReturn := true }]
    else
      points
  let lastDistance := getDistanceMeters host result.lastReturn
  if lastDistance > 0 ∧ lastDistance ≠ strongestDistance then
    points ++ [{
      azimuthDegrees := pointAzimuth
      distanceMeters := lastDistance
      rssi := result.lastReturn.rssi
      isValid := true
      useStrongestReturn := false }]
  else
    points

def parseBlock (packet : MSOPPacket) (points : List ParsedPoint) (blockIdx : Fin 12) : List ParsedPoint :=
  let currentBlock := packet.blocks blockIdx
  if !isValidBlock currentBlock then
    points
  else
    let currentAzimuth := getAzimuthDegrees host currentBlock
    let nextAzimuth := nextAzimuth host packet blockIdx
    (List.finRange 16).foldl (fun points pointIdx =>
      parsePoint host currentAzimuth nextAzimuth (currentBlock.results pointIdx) pointIdx points) points

def parsePacket (rawData : Memory) (dataSize : Nat) : List ParsedPoint :=
  if dataSize ≠ sizeofMSOPPacket then
    []
  else
    (List.finRange 12).foldl (parseBlock host (.load host rawData)) []

def getTimestamp (rawData : Memory) (dataSize : Nat) : UInt32 :=
  if dataSize ≠ sizeofMSOPPacket then 0 else ntoh32 host (MSOPPacket.load host rawData).timestamp

def getFactoryInfo (rawData : Memory) (dataSize : Nat) : UInt16 :=
  if dataSize ≠ sizeofMSOPPacket then 0 else ntoh16 host (MSOPPacket.load host rawData).factory

def isLastPacket (rawData : Memory) (dataSize : Nat) : Bool :=
  if dataSize ≠ sizeofMSOPPacket then
    false
  else
    let packet := MSOPPacket.load host rawData
    let invalidCount := (List.finRange 12).countP fun i => decide (6 ≤ i.val) && !isValidBlock (packet.blocks i)
    decide (invalidCount ≥ 3)

def validatePacket (rawData : Memory) (dataSize : Nat) : Bool :=
  if dataSize ≠ sizeofMSOPPacket then
    false
  else
    (List.finRange 12).any fun i => isValidBlock ((MSOPPacket.load host rawData).blocks i)

/-! ### Printing -/

structure PacketInfo where
  timestamp : UInt32
  factory : UInt16
  isLast : Bool
  validBlocks : List (Fin 12 × ℚ)
  totalPoints : Nat

/-- The values printed for a packet, or only the size if it is not that of a packet. -/
def printPacketInfo (rawData : Memory) (dataSize : Nat) : Except Nat PacketInfo :=
  if dataSize ≠ sizeofMSOPPacket then
    .error dataSize
  else
    let packet := MSOPPacket.load host rawData
    let points := parsePacket host rawData dataSize
    .ok {
      timestamp := getTimestamp host rawData dataSize
      factory := getFactoryInfo host rawData dataSize
      isLast := isLastPacket host rawData dataSize
      validBlocks := ((List.finRange 12).filter fun i => isValidBlock (packet.blocks i)).map fun i =>
        (i, getAzimuthDegrees host (packet.blocks i))
      totalPoints := points.length }

structure ExampleOutput where
  size : Nat
  timestamp : UInt32
  factory : UInt16
  isLast : Bool
  firstPoints : List (ParsedPoint × Nat)

/-- `example_usage`, for a packet that is left as it is declared. -/
def exampleUsage (rawPacket : Memory) : Except String ExampleOutput :=
  if !validatePacket host rawPacket sizeofMSOPPacket then
    .error "Invalid MSOP packet"
  else
    let points := parsePacket host rawPacket sizeofMSOPPacket
    .ok {
      size := points.length
      timestamp := getTimestamp host rawPacket sizeofMSOPPacket
      factory := getFactoryInfo host rawPacket sizeofMSOPPacket
      isLast := isLastPacket host rawPacket sizeofMSOPPacket
      firstPoints := (points.take 5).zipIdx }

end
end LidarInterface.Slam
