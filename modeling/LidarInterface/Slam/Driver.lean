import LidarInterface.Foundation.Decimal
import LidarInterface.Foundation.Loop
import LidarInterface.Slam.LiDARReader

/-! `slam_lidar_cpp/src/main.cpp`: the arguments, and the loop that reads one scan after another and prints its first
    points. The socket listens at the port of the arguments, narrowed to 16 bits. An exception of `readScan` is not
    caught, so it ends the program. The printed values are data, before `printf` rounds them; the usage text, the
    failures of `socket` and `bind`, and the pause between two scans are left out. -/

namespace LidarInterface.Slam.Driver
open Foundation

structure Settings where
  port : Int32
  angleOffset : Int32 := 0
  inverted : Bool := false
  deriving DecidableEq

/-- The settings that the arguments give, the program's name first; without a port the usage is printed. -/
def settings (argv : List (List Char)) : Option Settings :=
  if argv.length < 3 then
    none
  else
    let port := Decimal.atoi (argv.getD 2 [])
    let angleOffset := if argv.length ≥ 4 then Decimal.atoi (argv.getD 3 []) else 0
    let inverted := argv.length ≥ 5 ∧ Decimal.atoi (argv.getD 4 []) ≠ 0
    some { port, angleOffset, inverted }

namespace Settings
variable (s : Settings)

/-- The argument of `htons` when the socket is bound. -/
def udpPort : UInt16 := .ofInt s.port.toInt

def reader : LiDARReader := { angleOffset := s.angleOffset.toInt, inverted := s.inverted }

end Settings

structure Printed where
  size : Nat
  points : List (Fin 192 × ScanPoint)

def printScan (scan : Scan) : Printed where
  size := 192
  points := ((List.finRange 192).take 5).map fun i => (i, scan i)

/-- Each call of `readScan` receives into a packet of its own, which holds any bytes before. -/
structure Reception where
  packet : Memory
  recv : Recv

/-- An execution: the port that the receptions come from, what is printed, and the exception that ends it, if any. -/
structure Execution where
  udpPort : UInt16
  printed : List Printed
  exception : Option String

section
variable [Arithmetic] (host : ByteOrder)

def run (reader : LiDARReader) (receptions : List Reception) : List Printed × Option String :=
  Loop.failStop (fun r : Reception => (reader.readScan host r.packet r.recv).map printScan) receptions

def main (argv : List (List Char)) (receptions : List Reception) : Option Execution :=
  (settings argv).map fun s =>
    let (printed, exception) := run host s.reader receptions
    { udpPort := s.udpPort, printed, exception }

end
end LidarInterface.Slam.Driver
