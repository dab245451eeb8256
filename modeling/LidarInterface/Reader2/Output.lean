import LidarInterface.Foundation.Loop
import LidarInterface.Foundation.Polar
import LidarInterface.Reader2.Visualizer

/-! What `reader2.0/lidar_visualizer.cpp` prints and writes beside the report: a progress line for each datagram of the
    collection, the distribution of the samples over the bins, and the lines of the CSV file with the coordinates that
    are computed by `cos` and `sin`, as they are written. -/

namespace LidarInterface.Reader2
open Foundation Arithmetic

/-! ### Progress -/

def packetsPerRound : Nat := 50

structure Progress where
  currentRound : Nat
  packetInRound : Nat
  angles : Nat
  deriving DecidableEq

/-- The line of one iteration, printed before the packet is parsed. -/
def Collector.print (st : Collector) (r : Recv) : List Progress :=
  match receivePacket st.buffer r with
  | (_, none) => []
  | (_, some _) =>
    let packetCount := st.packetCount + 1
    [{ currentRound := (packetCount - 1) / packetsPerRound + 1
       packetInRound := (packetCount - 1) % packetsPerRound + 1
       angles := st.angleMap.size }]

/-- The collection loop of `main`, which receives nothing more once it has met `maxPackets` datagrams. -/
def collection [Arithmetic] (host : ByteOrder) : Loop Collector Recv Progress where
  step st r := if st.packetCount < maxPackets then st.step host r else st
  out st r := if st.packetCount < maxPackets then st.print r else []

/-! ### Sample distribution -/

structure Distribution where
  multiSampleBins : Nat := 0
  twoSampleBins : Nat := 0
  singleSampleBins : Nat := 0
  deriving DecidableEq

def Distribution.step (dist : Distribution) (samples : List LidarPoint) : Distribution :=
  if samples.length ≥ 3 then { dist with multiSampleBins := dist.multiSampleBins + 1 }
  else if samples.length = 2 then { dist with twoSampleBins := dist.twoSampleBins + 1 }
  else { dist with singleSampleBins := dist.singleSampleBins + 1 }

def distribution (angleMap : AngleMap) : Distribution :=
  angleMap.toList.foldl (fun dist bin => dist.step bin.2) {}

/-! ### The CSV file -/

section
variable [Arithmetic] (T : Polar.Trig ℚ)

/-- `std::fixed << std::setprecision(3)`, in thousandths. -/
def thousandths (value : ℚ) : ℤ := Rounding.toEven (value * 1000)

/-- The product with `M_PI` and the quotient are computed in `double`. -/
def azimuthRad (azimuth : ℚ) : ℚ := float (double (double (azimuth * T.pi) / 180))

/-- A line as it is written, numbers in thousandths. -/
structure CsvLine where
  x : ℤ
  y : ℤ
  distance : ℤ
  azimuth : ℤ
  rssi : Nat
  returnType : String
  deriving DecidableEq

def csvLine (row : CsvRow) : CsvLine :=
  let x := float (double (row.distance * T.cos (azimuthRad T row.azimuth)))
  let y := float (double (row.distance * T.sin (azimuthRad T row.azimuth)))
  { x := thousandths x
    y := thousandths y
    distance := thousandths row.distance
    azimuth := thousandths row.azimuth
    rssi := row.rssi
    returnType := row.returnType }

def csvLines (allPoints : List LidarPoint) : List CsvLine := (csvRows allPoints).map (csvLine T)

end

end LidarInterface.Reader2
