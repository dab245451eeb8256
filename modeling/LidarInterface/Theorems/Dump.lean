import LidarInterface.Foundation.Footprint
import LidarInterface.Slam.Dump
import LidarInterface.Theorems.Framing

/-! What the dumping programs print. `dump_packets` prints the bytes of each datagram and nothing that the buffer held
    before; from the second datagram on it writes the length in hexadecimal too. The other two print fields of their
    packet whatever was received, so what a short datagram leaves of the uninitialised packet is printed. -/

namespace LidarInterface.Slam
open Foundation Format Exact

/-! ### dump_packets.cpp -/

namespace DumpPackets

/-- The datagrams that are dumped: errors and empty datagrams are skipped. -/
def dumped (r : Recv) : Option (List UInt8) := r.datagram?.filter (· ≠ [])

/-- The text for datagram number `k`, counted from 0. -/
def datagramText (k : Nat) (bytes : List UInt8) : List Char :=
  packetText (if k = 0 then 10 else 16) (min bytes.length buflen) (Hex.dump 16 (bytes.take 64))

theorem rows_write (buffer : Memory) (bytes : List UInt8) :
    rows (buffer.write bytes (min bytes.length buflen)) (min bytes.length buflen) = Hex.dump 16 (bytes.take 64) := by
  have htake : bytes.take (min 64 (min bytes.length buflen)) = bytes.take 64 := by
    rw [List.take_eq_take_iff, buflen]
    omega
  rw [rows, Memory.bytes_write_of_le (Nat.min_le_left _ _) (Nat.min_le_right 64 _), htake]

section Step
variable (st : Dumper) {bytes : List UInt8} (hne : bytes ≠ [])
include hne

theorem received_pos : ¬((min bytes.length buflen : Nat) : Int) ≤ 0 := by
  have hpos := List.length_pos_iff.mpr hne
  rw [buflen]
  omega

theorem step_datagram : main.step st (.datagram bytes) =
    { buffer := st.buffer.write bytes (min bytes.length buflen), base := 16 } := by
  show st.step (.datagram bytes) = _
  rw [Dumper.step, recvfrom_datagram]
  exact if_neg (received_pos hne)

theorem out_datagram : main.out st (.datagram bytes) =
    [packetText st.base (min bytes.length buflen) (Hex.dump 16 (bytes.take 64))] := by
  show st.out (.datagram bytes) = _
  rw [Dumper.out, recvfrom_datagram, ← rows_write st.buffer]
  exact if_neg (received_pos hne)

theorem dumped_datagram : dumped (.datagram bytes) = some bytes :=
  Option.filter_eq_some_iff.mpr ⟨rfl, by simpa using hne⟩

end Step

/-- From one datagram to the next the program remembers only whether it dumped one. -/
theorem simulates_counting : Loop.Simulates main (Loop.counting dumped fun k bytes => [datagramText k bytes])
    fun st k => st.base = if k = 0 then 10 else 16 where
  step {st k} r hbase := by
    cases r with
    | error => exact hbase
    | datagram bytes =>
      rcases eq_or_ne bytes [] with rfl | hne
      · exact hbase
      · rw [step_datagram st hne, Loop.step_counting, dumped_datagram hne, Option.toList_some, List.length_singleton,
          if_neg (Nat.succ_ne_zero k)]
  out {st k} r hbase := by
    cases r with
    | error => rfl
    | datagram bytes =>
      rcases eq_or_ne bytes [] with rfl | hne
      · rfl
      · rw [out_datagram st hne, hbase, Loop.out_counting, dumped_datagram hne, Option.toList_some,
          List.flatMap_singleton, datagramText]

/-- A run writes one text for each datagram that is not empty, in order. The text spells the first 64 bytes of that
    datagram, whatever the buffer held. The length before them is decimal in the first text and hexadecimal later. -/
theorem log_eq_datagrams (buffer : Memory) (rs : List Recv) :
    main.log { buffer } rs = ((rs.filterMap dumped).zipIdx.map fun p => datagramText p.2 p.1) ∧
    ∀ k bytes, ∃ head foot body, datagramText k bytes = head ++ body ++ foot ∧
      Hex.read body = some (bytes.take 64) ∧
      head = "\n Packet (".toList ++ Nat.toDigits (if k = 0 then 10 else 16) (min bytes.length 1248) ++
        " bytes):\n".toList := by
  constructor
  · rw [simulates_counting.log (t := 0) (if_pos rfl).symm, Loop.log_counting, List.map_eq_flatMap]
  · intro k bytes
    exact ⟨_, _, Hex.dump 16 (bytes.take 64), rfl, Hex.read_dump 16 _, rfl⟩

end DumpPackets

/-! ### Fields of one packet -/

theorem other_byte (v : UInt8) : ∃ w : UInt8, w ≠ v := by
  rcases eq_or_ne v 0 with rfl | h
  · exact ⟨1, by decide⟩
  · exact ⟨0, h.symm⟩

section Fields
variable {m m' : Memory} {k : Nat} (hm : ∀ n < k, m n = m' n) (b : Fin 12)
include hm

theorem flag_below (h : 100 * b.val + 1 < k) : flag m b = flag m' b := Memory.readsBelow_be16 h hm

theorem azimuth_below (h : 100 * b.val + 3 < k) : azimuth m b = azimuth m' b := Memory.readsBelow_be16 h hm

theorem strongest_below (i : Fin 16) (h : 100 * b.val + (4 + 6 * i.val) + 2 < k) :
    distance m ⟨b, i, .strongest⟩ = distance m' ⟨b, i, .strongest⟩ ∧
    rssi m ⟨b, i, .strongest⟩ = rssi m' ⟨b, i, .strongest⟩ := by
  have hoff : (⟨b, i, .strongest⟩ : Slot).offset = 100 * b.val + (4 + 6 * i.val) := rfl
  exact ⟨Memory.readsBelow_be16 (by omega) hm, hm _ (by omega)⟩

end Fields

namespace DumpMsop

/-- The lines printed for a packet, by the fields of the format. -/
def lines (data : Memory) (b : Fin 12) : BlockLines where
  flag := flag data b
  azimuthDegrees := degrees data b
  returns i := (distance data ⟨b, i.castLE four_le, .strongest⟩, rssi data ⟨b, i.castLE four_le, .strongest⟩)

theorem blockLines_load (host : ByteOrder) (data : Memory) (b : Fin 12) :
    blockLines host ((MSOPPacket.load host data).blocks b) = lines data b := by
  have hflag : (swapped host data b).flag = flag data b := flag_swapped host data b
  have hazimuth : (swapped host data b).azimuth = azimuth data b := azimuth_swapped host data b
  have hreturns : (fun i : Fin 4 => (((swapped host data b).results (i.castLE four_le)).strongestReturn.distance,
      ((swapped host data b).results (i.castLE four_le)).strongestReturn.rssi)) = (lines data b).returns :=
    funext fun i => Prod.ext (distance_swapped host data b _) (rssi_swapped host data b _)
  have hlines : blockLines host ((MSOPPacket.load host data).blocks b) =
      { flag := (swapped host data b).flag
        azimuthDegrees := ((swapped host data b).azimuth.toNat : ℚ) / 100
        returns := fun i => (((swapped host data b).results (i.castLE four_le)).strongestReturn.distance,
          ((swapped host data b).results (i.castLE four_le)).strongestReturn.rssi) } := rfl
  rw [hlines, hflag, hazimuth, hreturns]
  rfl

/-- The last byte printed is the signal strength of return 3 of block 11. -/
theorem footprint_lines : Memory.Footprint 1125 lines where
  below m m' hm := by
    funext b
    rw [lines, lines, flag_below hm b (by omega), degrees, degrees, azimuth_below hm b (by omega)]
    refine congrArg (BlockLines.mk _ _) (funext fun i => ?_)
    obtain ⟨hdist, hrssi⟩ := strongest_below hm b (i.castLE four_le) (by simp only [Fin.val_castLE]; omega)
    rw [hdist, hrssi]
  last m := by
    obtain ⟨w, hw⟩ := other_byte (m 1124)
    refine ⟨w, fun he => hw ?_⟩
    have hlast : ∀ m : Memory, ((lines m 11).returns 3).2 = m 1124 := fun _ => rfl
    have hbyte := congrArg (fun ls : Fin 12 → BlockLines => ((ls 11).returns 3).2) he
    rwa [hlast, hlast, Function.update_self] at hbyte

theorem main_datagram (host : ByteOrder) (pkt : Memory) (bytes : List UInt8) : main host pkt (.datagram bytes) =
    .ok { received := (min bytes.length 1206 : Nat), blocks := lines (pkt.write bytes (min bytes.length 1206)) } := by
  have hlines := funext (blockLines_load host (pkt.write bytes (min bytes.length 1206)))
  rw [main, recvfrom_datagram, sizeofMSOPPacket, ← hlines]
  exact if_neg (by omega)

/-- What `dump_msop` prints for a datagram of 1125 bytes or more is read from it. For a shorter one it depends on the
    memory that the packet is left in. -/
theorem dump_msop_determined_iff (host : ByteOrder) (bytes : List UInt8) :
    ((∀ pkt pkt', main host pkt (.datagram bytes) = main host pkt' (.datagram bytes)) ↔ 1125 ≤ bytes.length) ∧
    (1125 ≤ bytes.length → ∀ pkt, main host pkt (.datagram bytes) =
      .ok { received := (min bytes.length 1206 : Nat), blocks := lines (.ofList bytes) }) := by
  have hle : min bytes.length 1206 ≤ bytes.length := Nat.min_le_left _ _
  constructor
  · have hiff := footprint_lines.determined_iff (by decide) hle
    simp only [main_datagram, Except.ok.injEq, Output.mk.injEq, true_and]
    rw [hiff]
    omega
  · intro hlong pkt
    rw [main_datagram, footprint_lines.below.write hle (by omega)]

end DumpMsop

namespace ReadPackets

/-- The fields printed, as they are loaded. -/
structure Fields where
  flag : UInt16
  azimuth : UInt16
  returns : Fin 4 → UInt16 × UInt8

def fields (host : ByteOrder) (data : Memory) : Fields where
  flag := ((MSOPPacket.load host data).blocks firstBlock).flag
  azimuth := ((MSOPPacket.load host data).blocks firstBlock).azimuth
  returns i :=
    let res := ((MSOPPacket.load host data).blocks firstBlock).results (i.castLE four_le)
    (res.strongestReturn.distance, res.strongestReturn.rssi)

/-- The last byte printed is the signal strength of return 3. -/
theorem footprint_fields (host : ByteOrder) : Memory.Footprint 25 (fields host) where
  below m m' hm := by
    have hload : ∀ n, n + 1 < 25 → m.load16 host n = m'.load16 host n := fun n hn => Memory.readsBelow_load16 host hn hm
    have hreturns : (fields host m).returns = (fields host m').returns := by
      funext i
      have hshift : ∀ m : Memory, (fields host m).returns i =
          (m.load16 host (100 * 0 + (4 + 6 * i.val)), m (100 * 0 + (4 + 6 * i.val + 2))) := fun _ => rfl
      rw [hshift, hshift, hload _ (by omega), hm _ (by omega)]
    have hfields : ∀ m : Memory, fields host m = ⟨m.load16 host 0, m.load16 host 2, (fields host m).returns⟩ :=
      fun _ => rfl
    rw [hfields m, hfields m', hload 0 (by decide), hload 2 (by decide), hreturns]
  last m := by
    obtain ⟨w, hw⟩ := other_byte (m 24)
    refine ⟨w, fun he => hw ?_⟩
    have hlast : ∀ m : Memory, ((fields host m).returns 3).2 = m 24 := fun _ => rfl
    have hbyte := congrArg (fun f : Fields => (f.returns 3).2) he
    rwa [hlast, hlast, Function.update_self] at hbyte

theorem main_datagram (host : ByteOrder) (packet : Memory) (bytes : List UInt8) :
    main host packet (.datagram bytes) =
      let f := fields host (packet.write bytes (min bytes.length 1206))
      .ok { received := (min bytes.length 1206 : Nat), flag := f.flag, azimuth := f.azimuth, returns := f.returns } := by
  rw [main, recvfrom_datagram, sizeofMSOPPacket]
  exact if_neg (by omega)

/-- What `read_packets` prints for a datagram of 25 bytes or more is read from it, and each field is the one of the
    format up to the byte order of the host. For a shorter one it depends on the memory that the packet is left in. -/
theorem read_packets_determined_iff (host : ByteOrder) (bytes : List UInt8) :
    ((∀ packet packet', main host packet (.datagram bytes) = main host packet' (.datagram bytes)) ↔
      25 ≤ bytes.length) ∧
    (25 ≤ bytes.length → ∀ packet, ∃ out, main host packet (.datagram bytes) = .ok out ∧
      host.ntohs out.flag = flag (.ofList bytes) firstBlock ∧
      host.ntohs out.azimuth = azimuth (.ofList bytes) firstBlock ∧
      ∀ i : Fin 4, host.ntohs (out.returns i).1 = distance (.ofList bytes) ⟨firstBlock, i.castLE four_le, .strongest⟩ ∧
        (out.returns i).2 = rssi (.ofList bytes) ⟨firstBlock, i.castLE four_le, .strongest⟩) := by
  have hle : min bytes.length 1206 ≤ bytes.length := Nat.min_le_left _ _
  constructor
  · have hiff := (footprint_fields host).determined_iff (by decide) hle
    have hinj : ∀ f f' : Fields, f.flag = f'.flag ∧ f.azimuth = f'.azimuth ∧ f.returns = f'.returns ↔ f = f' :=
      fun f f' => (Fields.mk.injEq ..).symm.to_iff
    simp only [main_datagram, Except.ok.injEq, Output.mk.injEq, true_and, hinj]
    rw [hiff]
    omega
  · intro hlong packet
    refine ⟨_, main_datagram host packet bytes, ?_⟩
    rw [(footprint_fields host).below.write hle (by omega)]
    exact ⟨flag_swapped host _ firstBlock, azimuth_swapped host _ firstBlock,
      fun i => ⟨distance_swapped host _ firstBlock _, rssi_swapped host _ firstBlock _⟩⟩

end ReadPackets

end LidarInterface.Slam
