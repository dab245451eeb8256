import LidarInterface.Foundation.Polar
import LidarInterface.Slam.Lakibeam

/-! `slam_lidar_cpp/lidar_plotter.cpp`, which draws the strongest returns of the first data block of each datagram. A
    `float` is an element of an ordered field, `cos` and `sin` are those of a library for it. Opening the socket and the
    keyboard are left out. -/

namespace LidarInterface.Plotter
open Foundation

def buflen : Nat := 2048

def headerFlag : UInt16 := 0xFFEE

/-- The same function as in `lakibeam_reader.cpp`. -/
abbrev readBe16 : Memory → UInt16 := Lakibeam.readBe16

def imgSize : ℤ := 800

def center : ℤ := imgSize / 2

/-- The canvas, and a picture of it: the centres of the circles drawn since it was last cleared by `setTo`, in the order
    of the calls. The circles have one radius and one color. -/
abbrev Canvas := List (ℤ × ℤ)

section
variable {K : Type} [Field K] [LinearOrder K] [FloorRing K] (T : Polar.Trig K)

/-- `az_raw / 100.0f`. -/
def degreesOf (azRaw : UInt16) : K := (azRaw.toNat : K) / 100

/-- `dist_mm / 1000.0f`. -/
def metersOf (distMm : UInt16) : K := (distMm.toNat : K) / 1000

/-- 1 meter is 100 pixels. -/
def scale : K := 100

def pixel (azDeg r : K) : ℤ × ℤ :=
  (center + Rounding.trunc (Polar.x T r azDeg * scale), center - Rounding.trunc (Polar.y T r azDeg * scale))

def inside (p : ℤ × ℤ) : Bool :=
  decide (p.1 ≥ 0) && decide (p.1 < imgSize) && decide (p.2 ≥ 0) && decide (p.2 < imgSize)

def drawReturn (p : Memory) (azDeg : K) (canvas : Canvas) : Canvas :=
  let distMm := readBe16 p
  let rssi := p 2
  if distMm = 0xFFFF ∨ distMm = 0 ∨ rssi = 0 then
    canvas
  else
    let r : K := metersOf distMm
    -- `az_rad` is the azimuth of the block for each of its measurements.
    if inside (pixel T azDeg r) then canvas ++ [pixel T azDeg r] else canvas

structure Plot where
  buffer : Memory
  canvas : Canvas := []

/-- The canvas shown in an iteration, if it gets that far. -/
def shown (st : Plot) (buffer : Memory) (len : Int) : Option Canvas :=
  if len < 100 then
    none
  else if readBe16 buffer ≠ headerFlag then
    none
  else if readBe16 (buffer.shift 2) = 0xFFFF then
    none
  else
    let azDeg : K := degreesOf (readBe16 (buffer.shift 2))
    some ((List.finRange 16).foldl (fun canvas i => drawReturn T (buffer.shift (4 + i.val * 6)) azDeg canvas) st.canvas)

/-- The canvas is cleared after it was shown. -/
def main : Loop Plot Recv Canvas where
  step st r :=
    let (buffer, len) := recvfrom st.buffer buflen r
    match shown T st buffer len with
    | none => { st with buffer }
    | some _ => { buffer, canvas := [] }
  out st r :=
    let (buffer, len) := recvfrom st.buffer buflen r
    (shown T st buffer len).toList

end
end LidarInterface.Plotter
