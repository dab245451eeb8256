import LidarInterface.Contents
import LidarInterface.Theorems.Reader2Decode
import LidarInterface.Theorems.SlamDecode

/-! The packed structs of both packages lie on a packet without a gap or an overlap: every byte of the 1206 is a byte of
    one field, and every value of the fields is a packet. The two packages lay the same fields on the same bytes. -/

namespace LidarInterface
open Foundation Format

/-! ### Fields and bytes -/

namespace Contents

theorem slot_byte (data : Memory) (s : Slot) {k : Nat} (hk : k < 3) :
    (read data).encode (s.offset + k) = data (s.offset + k) := by
  rw [encode_slot _ s hk]
  split
  · next h =>
    rw [h]
    rfl
  · exact Memory.byte16_be16 data s.offset (by omega)

/-- Every byte of a block after the first four belongs to a return. -/
theorem exists_slot (b : Fin 12) {r : Nat} (hlow : 4 ≤ r) (hr : r < 100) :
    ∃ s : Slot, ∃ k < 3, s.offset + k = 100 * b + r := by
  let i : Fin 16 := ⟨(r - 4) / 6, by omega⟩
  rcases Nat.lt_or_ge ((r - 4) % 6) 3 with hside | hside
  · refine ⟨⟨b, i, .strongest⟩, (r - 4) % 6, hside, ?_⟩
    simp only [Slot.offset, i]
    omega
  · refine ⟨⟨b, i, .last⟩, (r - 4) % 6 - 3, by omega, ?_⟩
    simp only [Slot.offset, i]
    omega

/-- The fields of a packet, laid out again, are its bytes. -/
theorem encode_read (data : Memory) : SamePacket (read data).encode data := by
  intro n hn
  rw [packetSize] at hn
  rcases Nat.lt_or_ge n 1200 with hblock | htail
  · obtain ⟨b, r, hr, rfl⟩ : ∃ b : Fin 12, ∃ r < 100, n = 100 * b + r :=
      ⟨⟨n / 100, by omega⟩, n % 100, by omega, by simp only; omega⟩
    rcases Nat.lt_or_ge r 4 with hhead | hslot
    · rw [encode_block _ b hr, blockByte]
      rcases Nat.lt_or_ge r 2 with h | h
      · rw [if_pos h]
        exact Memory.byte16_be16 data (100 * b) h
      · rw [if_neg (by omega), if_pos hhead]
        refine (Memory.byte16_be16 data (100 * b + 2) (k := r - 2) (by omega)).trans (congrArg data ?_)
        omega
    · obtain ⟨s, k, hk, hs⟩ := exists_slot b hslot hr
      rw [← hs, slot_byte data s hk]
  · rw [encode, if_neg (by omega)]
    split
    · next h =>
      refine (Memory.byte32_be32 data 1200 (k := n - 1200) (by omega)).trans (congrArg data ?_)
      omega
    · next h =>
      refine (Memory.byte16_be16 data 1204 (k := n - 1204) (by omega)).trans (congrArg data ?_)
      omega

/-- Packets with the same fields have the same bytes, and conversely. -/
theorem read_eq_iff (data data' : Memory) : read data = read data' ↔ SamePacket data data' := by
  constructor
  · intro h n hn
    rw [← encode_read data n hn, h, encode_read data' n hn]
  · intro h
    simp only [read, funext h.flag, funext h.azimuth, funext h.distance, funext h.rssi, h.timestamp, h.factoryInfo]

end Contents

/-! ### The structs of reader2.0 -/

namespace Reader2

/-- The fields of the struct in host form. -/
def MSOPPacket.contents (host : ByteOrder) (packet : MSOPPacket) : Contents where
  flag b := be16ToHost host (packet.dataBlocks b).flag
  azimuth b := be16ToHost host (packet.dataBlocks b).azimuth
  distance s :=
    let measurement := (packet.dataBlocks s.block).measurements s.index
    match s.kind with
    | .strongest => be16ToHost host measurement.distanceStrongest
    | .last => be16ToHost host measurement.distanceLast
  rssi s :=
    let measurement := (packet.dataBlocks s.block).measurements s.index
    match s.kind with
    | .strongest => measurement.rssiStrongest
    | .last => measurement.rssiLast
  timestamp := be32ToHost host packet.tail.timestamp
  factoryInfo := be16ToHost host packet.tail.factoryInfo

section
variable (host : ByteOrder)

theorem contents_load (data : Memory) : (MSOPPacket.load host data).contents host = Contents.read data := by
  have hdistance : ((MSOPPacket.load host data).contents host).distance = Format.distance data := by
    funext ⟨b, i, k⟩
    cases k with
    | strongest => exact distanceStrongest_load host data b i
    | last => exact distanceLast_load host data b i
  have hrssi : ((MSOPPacket.load host data).contents host).rssi = Format.rssi data := by
    funext ⟨b, i, k⟩
    cases k with
    | strongest => exact rssiStrongest_load host data b i
    | last => exact rssiLast_load host data b i
  rw [Contents.read, ← hdistance, ← hrssi, ← timestamp_load host, ← factoryInfo_load host,
    ← funext (flag_load host data), ← funext (azimuth_load host data)]
  rfl

theorem contents_injective : Function.Injective (MSOPPacket.contents host) := by
  rintro ⟨blocks, ⟨timestamp, factoryInfo⟩⟩ ⟨blocks', ⟨timestamp', factoryInfo'⟩⟩ h
  simp only [MSOPPacket.contents, Contents.mk.injEq] at h
  obtain ⟨hflag, hazimuth, hdistance, hrssi, htimestamp, hfactory⟩ := h
  have hblocks : blocks = blocks' := by
    funext b
    have hmeasurements : (blocks b).measurements = (blocks' b).measurements := by
      funext i
      have hstrongest := (host.ntohs_inj).mp (congrFun hdistance ⟨b, i, .strongest⟩)
      have hlast := (host.ntohs_inj).mp (congrFun hdistance ⟨b, i, .last⟩)
      have hrssiStrongest : ((blocks b).measurements i).rssiStrongest = ((blocks' b).measurements i).rssiStrongest :=
        congrFun hrssi ⟨b, i, .strongest⟩
      have hrssiLast : ((blocks b).measurements i).rssiLast = ((blocks' b).measurements i).rssiLast :=
        congrFun hrssi ⟨b, i, .last⟩
      cases hm : (blocks b).measurements i
      cases hm' : (blocks' b).measurements i
      simp_all
    have hf := (host.ntohs_inj).mp (congrFun hflag b)
    have ha := (host.ntohs_inj).mp (congrFun hazimuth b)
    cases hb : blocks b
    cases hb' : blocks' b
    simp_all
  rw [hblocks, (host.ntohl_inj).mp htimestamp, (host.ntohs_inj).mp hfactory]

/-- Every value of the struct lies on some packet. -/
theorem load_surjective : Function.Surjective (MSOPPacket.load host) := fun packet =>
  ⟨(packet.contents host).encode, contents_injective host (by rw [contents_load, Contents.read_encode])⟩

theorem load_eq_iff (data data' : Memory) :
    MSOPPacket.load host data = MSOPPacket.load host data' ↔ SamePacket data data' := by
  rw [← Contents.read_eq_iff, ← contents_load host, ← contents_load host, (contents_injective host).eq_iff]

end
end Reader2

/-! ### The structs of slam_lidar_cpp -/

/-- The same fields under the names of the other package. -/
def sameFields : Reader2.MSOPPacket ≃ Slam.MSOPPacket where
  toFun packet :=
    { blocks := fun b =>
        { flag := (packet.dataBlocks b).flag
          azimuth := (packet.dataBlocks b).azimuth
          results := fun i =>
            let m := (packet.dataBlocks b).measurements i
            { strongestReturn := ⟨m.distanceStrongest, m.rssiStrongest⟩, lastReturn := ⟨m.distanceLast, m.rssiLast⟩ } }
      timestamp := packet.tail.timestamp
      factory := packet.tail.factoryInfo }
  invFun packet :=
    { dataBlocks := fun b =>
        { flag := (packet.blocks b).flag
          azimuth := (packet.blocks b).azimuth
          measurements := fun i =>
            let r := (packet.blocks b).results i
            ⟨r.strongestReturn.distance, r.strongestReturn.rssi, r.lastReturn.distance, r.lastReturn.rssi⟩ }
      tail := ⟨packet.timestamp, packet.factory⟩ }
  left_inv _ := rfl
  right_inv _ := rfl

theorem sameFields_load (host : ByteOrder) (data : Memory) :
    sameFields (Reader2.MSOPPacket.load host data) = Slam.MSOPPacket.load host data := by
  cases host <;> rfl

/-- On either host, the struct of each package lies on the 1206 bytes so that equal structs are equal bytes and every
    value of the struct is a packet; field by field the two structs are the same, and the fields in host form, laid out
    again, are the bytes of the packet. -/
theorem struct_layouts (host : ByteOrder) :
    (∀ data data', Reader2.MSOPPacket.load host data = Reader2.MSOPPacket.load host data' ↔
      data.bytes 1206 = data'.bytes 1206) ∧
    (∀ packet, ∃ data, Reader2.MSOPPacket.load host data = packet) ∧
    (∀ data data', Slam.MSOPPacket.load host data = Slam.MSOPPacket.load host data' ↔
      data.bytes 1206 = data'.bytes 1206) ∧
    (∀ packet, ∃ data, Slam.MSOPPacket.load host data = packet) ∧
    (∀ data, sameFields (Reader2.MSOPPacket.load host data) = Slam.MSOPPacket.load host data) ∧
    ∀ data, ((Reader2.MSOPPacket.load host data).contents host).encode.bytes 1206 = data.bytes 1206 := by
  have hsame : ∀ data data' : Memory, SamePacket data data' ↔ data.bytes 1206 = data'.bytes 1206 :=
    fun _ _ => Memory.bytes_congr.symm
  refine ⟨fun data data' => ?_, Reader2.load_surjective host, fun data data' => ?_, fun packet => ?_,
    sameFields_load host, fun data => ?_⟩
  · rw [← hsame, Reader2.load_eq_iff]
  · rw [← hsame, ← sameFields_load, ← sameFields_load, sameFields.injective.eq_iff, Reader2.load_eq_iff]
  · obtain ⟨data, hdata⟩ := Reader2.load_surjective host (sameFields.symm packet)
    exact ⟨data, by rw [← sameFields_load, hdata, Equiv.apply_symm_apply]⟩
  · rw [← hsame, Reader2.contents_load]
    exact Contents.encode_read data

end LidarInterface
