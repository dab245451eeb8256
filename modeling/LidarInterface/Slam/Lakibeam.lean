import LidarInterface.Foundation.Loop
import LidarInterface.Foundation.Rounding
import LidarInterface.Udp
import Mathlib.Data.List.FinRange

/-! `slam_lidar_cpp/src/lakibeam_reader.cpp`, which prints the measurements of the first data block of each datagram,
    taken from the start of the datagram. Operations on `float` are rounded by the arithmetic. The lines printed are
    data: the texts between the values are left out, and so is opening the socket. -/

namespace LidarInterface.Lakibeam
open Foundation Arithmetic

/-- `BUFLEN`. -/
def buflen : Nat := 2048

def headerFlag : UInt16 := 0xFFEE

def readBe16 (data : Memory) : UInt16 := .ofNat ((data 0).toNat <<< 8 ||| (data 1).toNat)

structure PointLine where
  point : Nat
  azimuth : ℚ
  distance : ℚ
  rssi : UInt8
  deriving DecidableEq

/-- How `std::cout` writes a `float`: six significant digits at the start of the program, two decimals once `std::fixed`
    and `std::setprecision(2)` were given to it. -/
inductive FloatFormat where
  | general
  | fixed
  deriving DecidableEq

inductive Line where
  | received (len : Int)
  | tooSmall
  | invalidBlock (flag azimuth : UInt16)
  | invalidFlag (flag : UInt16)
  | azimuth (degrees : ℚ) (floats : FloatFormat)
  | notEnoughData (point : Nat)
  | rawMeasurement (point : Nat) (bytes : List UInt8)
  | point (line : PointLine)
  | separator
  deriving DecidableEq

def Line.point? : Line → Option PointLine
  | point line => some line
  | _ => none

/-- The manipulators stand in the line of a point. The fill character `0` persists too, but it pads only what follows it
    in a line of bytes, and the number of a point, which is printed after such a line. -/
def FloatFormat.after (floats : FloatFormat) : Line → FloatFormat
  | .point _ => fixed
  | _ => floats

section
variable [Arithmetic]

/-- The lines of one measurement: the bytes of the first three are printed, then the strongest return if there is
    one, otherwise the last one. -/
def measurement (measurementPtr : Memory) (azimuthDeg : ℚ) (point : Nat) : List Line :=
  let dist1 := readBe16 measurementPtr
  let rssi1 := measurementPtr 2
  let dist2 := readBe16 (measurementPtr.shift 3)
  let rssi2 := measurementPtr 5
  let raw := if point < 3 then [Line.rawMeasurement point (measurementPtr.bytes 6)] else []
  let final : UInt16 × UInt8 :=
    if dist1 > 0 ∧ dist1 ≠ 0xFFFF then (dist1, rssi1) else if dist2 > 0 ∧ dist2 ≠ 0xFFFF then (dist2, rssi2) else (0, 0)
  raw ++
    if final.1 > 0 ∧ final.2 > 0 then
      [Line.point {
        point
        azimuth := float (azimuthDeg + float (1 / 4 * point))
        distance := float ((final.1.toNat : ℚ) / 1000)
        rssi := final.2 }]
    else
      []

/-- The loop over the measurements, which ends at the first one that the datagram does not hold. -/
def measurements (buffer : Memory) (len : Int) (azimuthDeg : ℚ) : List (Fin 16) → List Line
  | [] => []
  | point :: points =>
    let offset := 4 + point.val * 6
    if offset + 6 > len then
      [Line.notEnoughData point]
    else
      measurement (buffer.shift offset) azimuthDeg point ++ measurements buffer len azimuthDeg points

/-- The lines of one iteration, after `recv` returned `len`. -/
def iteration (floats : FloatFormat) (buffer : Memory) (len : Int) : List Line :=
  Line.received len ::
    if len < 100 then
      [Line.tooSmall]
    else
      let flag := readBe16 buffer
      let azimuthRaw := readBe16 (buffer.shift 2)
      if flag = 0xFFFF ∨ azimuthRaw = 0xFFFF then
        [Line.invalidBlock flag azimuthRaw]
      else if flag ≠ headerFlag then
        [Line.invalidFlag flag]
      else
        let azimuthDeg := float ((azimuthRaw.toNat : ℚ) / 100)
        Line.azimuth azimuthDeg floats :: (measurements buffer len azimuthDeg (List.finRange 16) ++ [Line.separator])

end

/-- What outlives an iteration: the buffer, and the format of `std::cout`. -/
structure Reader where
  buffer : Memory
  floats : FloatFormat := .general

section
variable [Arithmetic]

def Reader.out (st : Reader) (r : Recv) : List Line :=
  let (buffer, len) := recvfrom st.buffer buflen r
  iteration st.floats buffer len

def Reader.step (st : Reader) (r : Recv) : Reader where
  buffer := (recvfrom st.buffer buflen r).1
  floats := (st.out r).foldl FloatFormat.after st.floats

def main : Loop Reader Recv Line where
  step := Reader.step
  out := Reader.out

end
end LidarInterface.Lakibeam
