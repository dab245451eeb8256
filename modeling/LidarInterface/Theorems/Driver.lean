import LidarInterface.Foundation.Footprint
import LidarInterface.Slam.Driver
import LidarInterface.Theorems.ScanDecode
import Mathlib.Data.List.TakeWhile

/-! Runs of the driver, whatever the arithmetic. The first datagram that is too short, or the first error, ends it.
    What it printed before is determined by its arguments and by the datagrams, whatever the uninitialised packets held,
    and each line is a strongest return of the first block, or of the last one when the sensor is mounted upside
    down. -/

namespace LidarInterface.Slam.Driver
open Foundation Format

/-! ### Arguments -/

theorem atoi_write (z : Int32) : Decimal.atoi (Decimal.write z.toInt) = z := by
  have hread := @Decimal.atoi_write z [] [] (fun c hc => by cases hc) fun c hc => by cases hc
  rwa [List.nil_append, List.append_nil] at hread

/-- The arguments written in decimal, with the program's name and the host's address before them. -/
theorem settings_write (program hostIp : List Char) (port offset inverted : Int32) :
    settings [program, hostIp, Decimal.write port.toInt] = some { port } ∧
    settings [program, hostIp, Decimal.write port.toInt, Decimal.write offset.toInt] =
      some { port, angleOffset := offset } ∧
    settings [program, hostIp, Decimal.write port.toInt, Decimal.write offset.toInt, Decimal.write inverted.toInt] =
      some { port, angleOffset := offset, inverted := decide (inverted ≠ 0) } := by
  refine ⟨?_, ?_, ?_⟩ <;> simp [settings, atoi_write]

theorem settings_eq_none {argv : List (List Char)} : settings argv = none ↔ argv.length < 3 := by
  rw [settings]
  split
  · next h => exact iff_of_true rfl h
  · next h => exact iff_of_false (by simp) h

theorem toNat_udpPort (s : Settings) : (s.udpPort.toNat : Int) = s.port.toInt % 65536 := by
  rw [Settings.udpPort, UInt16.ofInt, UInt16.toNat_ofNat']
  omega

/-! ### Printed points -/

/-- The return that line `j` is about. -/
def lineSlot (inverted : Bool) (j : Fin 5) : Slot :=
  if inverted then ⟨Fin.last 11, ⟨15 - j, by omega⟩, .strongest⟩ else ⟨firstBlock, ⟨j, by omega⟩, .strongest⟩

theorem slot_lineSlot (self : LiDARReader) (j : Fin 5) :
    self.slot (lineSlot self.inverted j).block (lineSlot self.inverted j).index = ⟨j, by omega⟩ := by
  apply Fin.ext
  rw [slot_val, lineSlot]
  cases self.inverted with
  | true =>
    simp only [if_true, Fin.val_last]
    omega
  | false => simp

section Rounded
variable [Arithmetic]

def scanPoint (self : LiDARReader) (data : Memory) (s : Slot) : ScanPoint :=
  if HasBeam data s then (reading self data s).toScanPoint
  else { angle := angle self data s, range := ⊤, intensity := 0 }

/-- What is printed for a packet. -/
def summary (self : LiDARReader) (data : Memory) : Printed where
  size := 192
  points := (List.finRange 5).map fun j : Fin 5 => (⟨j, by omega⟩, scanPoint self data (lineSlot self.inverted j))

section Packet
variable (self : LiDARReader) (host : ByteOrder)

theorem decodeScan_line (data : Memory) (j : Fin 5) : self.decodeScan host (.load host data) ⟨j, by omega⟩ =
    scanPoint self data (lineSlot self.inverted j) := by
  have hstrongest : lineSlot self.inverted j =
      ⟨(lineSlot self.inverted j).block, (lineSlot self.inverted j).index, .strongest⟩ := by
    rw [lineSlot]
    split <;> rfl
  rw [← slot_lineSlot self j, decodeScan_slot, beam_swapped, ← hstrongest, scanPoint]

theorem printScan_decodeScan (data : Memory) :
    printScan (self.decodeScan host (.load host data)) = summary self data := by
  have hfirst : (List.finRange 192).take 5 = (List.finRange 5).map fun j : Fin 5 => (⟨j, by omega⟩ : Fin 192) := by
    decide
  rw [printScan, summary, hfirst, List.map_map]
  refine congrArg (Printed.mk 192) (List.map_congr_left fun j _ => ?_)
  exact congrArg (Prod.mk _) (decodeScan_line self host data j)

end Packet

/-! ### Runs -/

/-- The datagrams that a scan is decoded from. -/
def complete : Recv → Bool
  | .error => false
  | .datagram bytes => decide (1206 ≤ bytes.length)

theorem readScan_printed (self : LiDARReader) (host : ByteOrder) (r : Reception) :
    (self.readScan host r.packet r.recv).map printScan =
      if complete r.recv then .ok (summary self (.ofList (r.recv.datagram?.getD [])))
      else .error "recvfrom error or incomplete packet" := by
  obtain ⟨packet, recv⟩ := r
  cases recv with
  | error => rfl
  | datagram bytes =>
    rw [readScan_datagram]
    by_cases hlong : 1206 ≤ bytes.length
    · have hsame : SamePacket (packet.write bytes 1206) (.ofList bytes) :=
        fun n hn => Memory.write_apply_of_lt hlong packet hn
      rw [if_pos hlong, decodeScan_congr hsame, complete, decide_eq_true hlong, if_pos rfl,
        ← printScan_decodeScan _ host]
      rfl
    · rw [if_neg hlong, complete, decide_eq_false hlong, if_neg Bool.false_ne_true]
      rfl

/-- The packets that are printed: those before the first reception that is no complete datagram. -/
def accepted (recvs : List Recv) : List (List UInt8) := (recvs.takeWhile complete).filterMap Recv.datagram?

theorem run_eq (self : LiDARReader) (host : ByteOrder) (receptions : List Reception) : run host self receptions =
    ((accepted (receptions.map (·.recv))).map fun bytes => summary self (.ofList bytes),
      if (receptions.map (·.recv)).all complete then none else some "recvfrom error or incomplete packet") := by
  have hprinted : (receptions.takeWhile fun r => complete r.recv).map
      (fun r => summary self (.ofList (r.recv.datagram?.getD []))) =
        (accepted (receptions.map (·.recv))).map fun bytes => summary self (.ofList bytes) := by
    rw [accepted, List.takeWhile_map, List.filterMap_map, List.map_filterMap, ← List.filterMap_eq_map']
    refine List.filterMap_congr fun r hr => ?_
    have hcomplete := List.mem_takeWhile_imp hr
    obtain ⟨packet, recv⟩ := r
    cases recv with
    | error => cases hcomplete
    | datagram bytes => rfl
  rw [run, Loop.failStop_eq _ (readScan_printed self host), hprinted, List.all_map]
  rfl

/-- Without a port nothing is read. Otherwise the socket is bound to the port of the arguments modulo 2^16, and arguments
    written in decimal are the settings of the reader. A run then prints one summary for each datagram of 1206 bytes or
    more until the first shorter one or error, which ends it; nothing printed depends on the packets before the calls
    or on the host. -/
theorem main_run (host : ByteOrder) :
    (∀ argv receptions, main host argv receptions = none ↔ argv.length < 3) ∧
    (∀ argv s receptions, settings argv = some s →
      let recvs := receptions.map (·.recv)
      main host argv receptions = some
        { udpPort := s.udpPort
          printed := (accepted recvs).map fun bytes => summary s.reader (.ofList bytes)
          exception := if recvs.all complete then none else some "recvfrom error or incomplete packet" }) ∧
    (∀ s : Settings, (s.udpPort.toNat : Int) = s.port.toInt % 65536) ∧
    ∀ (program hostIp : List Char) (port offset inverted : Int32),
      settings [program, hostIp, Decimal.write port.toInt] = some { port } ∧
      settings [program, hostIp, Decimal.write port.toInt, Decimal.write offset.toInt] =
        some { port, angleOffset := offset } ∧
      settings [program, hostIp, Decimal.write port.toInt, Decimal.write offset.toInt, Decimal.write inverted.toInt] =
        some { port, angleOffset := offset, inverted := decide (inverted ≠ 0) } := by
  refine ⟨fun argv receptions => ?_, fun argv s receptions hs => ?_, toNat_udpPort, settings_write⟩
  · rw [main, Option.map_eq_none_iff, settings_eq_none]
  · rw [main, hs, Option.map_some, run_eq]

end Rounded

end LidarInterface.Slam.Driver
