import LidarInterface.Foundation.Groups
import LidarInterface.Foundation.Select
import LidarInterface.Reader2.Receive
import Mathlib.Algebra.Order.Group.Abs

/-! `reader2.0/lidar_visualizer.cpp`: the collection of samples into bins of half a degree, the selection of
    one sample for each bin, and the report. `std::map<int, AngleSamples>` is an ordered map; the members
    `best_point` and `has_valid_point` of `AngleSamples`, which nothing reads, are left out, and so is the
    generated Python script. -/

namespace LidarInterface.Reader2
open Foundation Arithmetic

abbrev AngleMap := Std.TreeMap Int (List LidarPoint)

def maxPackets : Nat := 150

theorem three_ne_nil {sample0 sample1 sample2 : LidarPoint} {rest : List LidarPoint} :
    sample0 :: sample1 :: sample2 :: rest ≠ [] := List.cons_ne_nil _ _

section
variable [Arithmetic]

def isSample (point : LidarPoint) : Bool :=
  point.isValid && decide (point.distance > float (1 / 10)) && decide (point.distance < 14) && decide (point.rssi > 15)

/-- `static_cast<int>(point.azimuth * 2.0f)`. -/
def angleBin (point : LidarPoint) : Int := Rounding.trunc (float (2 * point.azimuth))

def addPoint (angleMap : AngleMap) (point : LidarPoint) : AngleMap :=
  if isSample point then Groups.pushAt angleMap (angleBin point) point else angleMap

/-- The variables of `main` that the collection loop changes. -/
structure Collector where
  buffer : Memory
  parser : MSOPParser := {}
  packetCount : Nat := 0
  angleMap : AngleMap := ∅

def Collector.step (host : ByteOrder) (st : Collector) (r : Recv) : Collector :=
  match receivePacket st.buffer r with
  | (buffer, none) => { st with buffer }
  | (buffer, some receivedSize) =>
    let st := { st with buffer, packetCount := st.packetCount + 1 }
    if receivedSize = 1206 ∨ receivedSize = 1248 then
      let data := if receivedSize = 1248 then buffer.shift 42 else buffer
      let dataSize := if receivedSize = 1248 then receivedSize - 42 else receivedSize
      let result := st.parser.parsePacket host data dataSize []
      let st := { st with parser := result.parser }
      if result.ok then { st with angleMap := result.points.foldl addPoint st.angleMap } else st
    else
      st

/-- The collection loop: what it has met so far, from a buffer with any content, and where it is. An
    iteration starts only while fewer than `maxPackets` datagrams were received. -/
inductive Collects (host : ByteOrder) : List Recv → Collector → Prop
  | start (buffer : Memory) : Collects host [] { buffer }
  | step {rs : List Recv} {st : Collector} (h : Collects host rs st) (hloop : st.packetCount < maxPackets)
      (r : Recv) : Collects host (rs ++ [r]) (st.step host r)

/-! ### Selection -/

def closer (medianDistance : ℚ) (a b : LidarPoint) : Bool :=
  let diffA := |float (a.distance - medianDistance)|
  let diffB := |float (b.distance - medianDistance)|
  if |float (diffA - diffB)| < float (1 / 10) then decide (a.rssi > b.rssi) else decide (diffA < diffB)

def medianDistance (samples : List LidarPoint) (h : samples ≠ []) : ℚ :=
  Select.median (samples.map (·.distance)) (by simpa using h)

def medianRssi (samples : List LidarPoint) (h : samples ≠ []) : ℚ :=
  Select.median (samples.map fun sample => (sample.rssi.toNat : ℚ)) (by simpa using h)

/-- The samples within half of the median distance and with at least 0.7 of the median signal strength. -/
def filteredSamples (samples : List LidarPoint) (h : samples ≠ []) : List LidarPoint :=
  samples.filter fun sample =>
    let distanceDeviation := float (|float (sample.distance - medianDistance samples h)| / medianDistance samples h)
    decide (distanceDeviation ≤ 1 / 2) &&
      decide ((sample.rssi.toNat : ℚ) ≥ float (medianRssi samples h * float (7 / 10)))

/-- The point kept for a bin of three samples or more, if any. -/
def selectMulti (samples : List LidarPoint) (h : samples ≠ []) : Option LidarPoint :=
  match filteredSamples samples h with
  | [] => none
  | first :: rest =>
    if medianRssi samples h > 20 then
      some (Select.minElement (closer (medianDistance samples h)) first rest)
    else
      none

def selectTwo (sample0 sample1 : LidarPoint) : Option LidarPoint :=
  let distanceDiff := |float (sample0.distance - sample1.distance)|
  let avgDistance := float (float (sample0.distance + sample1.distance) / 2)
  let relativeDiff := float (distanceDiff / avgDistance)
  if relativeDiff ≤ float (3 / 10) ∧ min sample0.rssi sample1.rssi > 20 then
    some (if sample0.rssi > sample1.rssi then sample0 else sample1)
  else
    none

def selectSingle (sample0 : LidarPoint) : Option LidarPoint := if sample0.rssi > 25 then some sample0 else none

/-- The variables that the loop over the bins changes. -/
structure Selection where
  uniquePoints : List LidarPoint := []
  filteredBins : Nat := 0
  totalSamples : Nat := 0

namespace Selection

/-- A bin is kept with its point, or counted as filtered. -/
def settle (sel : Selection) : Option LidarPoint → Selection
  | some point => { sel with uniquePoints := sel.uniquePoints ++ [point] }
  | none => { sel with filteredBins := sel.filteredBins + 1 }

def step (sel : Selection) (samples : List LidarPoint) : Selection :=
  let sel := { sel with totalSamples := sel.totalSamples + samples.length }
  match samples with
  | sample0 :: sample1 :: sample2 :: rest =>
    sel.settle (selectMulti (sample0 :: sample1 :: sample2 :: rest) three_ne_nil)
  | [sample0, sample1] => sel.settle (selectTwo sample0 sample1)
  | [sample0] => sel.settle (selectSingle sample0)
  | [] => sel

end Selection

def select (angleMap : AngleMap) : Selection :=
  angleMap.toList.foldl (fun sel bin => sel.step bin.2) {}

/-! ### Report -/

def sortByAzimuth (points : List LidarPoint) : List LidarPoint :=
  points.mergeSort fun a b => !decide (b.azimuth < a.azimuth)

/-- A data row of the CSV file, without the columns `x` and `y` that `cos` and `sin` compute from the azimuth and
    the distance. -/
structure CsvRow where
  distance : ℚ
  azimuth : ℚ
  rssi : Nat
  returnType : String
  deriving DecidableEq

def csvRow (point : LidarPoint) : CsvRow where
  distance := point.distance
  azimuth := point.azimuth
  rssi := point.rssi.toNat
  returnType := if point.isStrongest then "strongest" else "last"

def csvRows (allPoints : List LidarPoint) : List CsvRow :=
  (allPoints.filter fun point =>
    point.isValid && decide (point.distance > float (1 / 10)) && decide (point.distance < 15)).map csvRow

structure Report where
  selection : Selection
  uniquePoints : List LidarPoint
  rows : List CsvRow

/-- What `main` does after the collection; nothing is reported when no sample was collected. -/
def report (angleMap : AngleMap) : Option Report :=
  if angleMap.isEmpty then
    none
  else
    let selection := select angleMap
    let uniquePoints := sortByAzimuth selection.uniquePoints
    some { selection, uniquePoints, rows := csvRows uniquePoints }

/-- The angle coverage that is printed last. The average resolution is the span divided by `divisor`, the
    `size_t` value `unique_points.size() - 1`. -/
structure Coverage where
  minAngle : ℚ
  maxAngle : ℚ
  angleSpan : ℚ
  actualCoverage : Nat
  divisor : UInt64

/-- `front()` and `back()` of an empty vector are undefined. -/
def coverage (uniquePoints : List LidarPoint) : Option Coverage :=
  match uniquePoints.head?, uniquePoints.getLast? with
  | some front, some back =>
    let minAngle := front.azimuth
    let maxAngle := back.azimuth
    some { minAngle, maxAngle, angleSpan := float (maxAngle - minAngle), actualCoverage := uniquePoints.length
           divisor := .ofNat uniquePoints.length - 1 }
  | _, _ => none

end
end LidarInterface.Reader2
