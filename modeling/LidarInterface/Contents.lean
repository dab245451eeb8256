import LidarInterface.Format

/-! The contents of a packet and their layout in bytes. Laying out any contents and reading the fields back
    returns the contents, so every combination of fields is a packet; this also gives packets in which a
    part of the fields is replaced and nothing else is. -/

namespace LidarInterface
open Foundation Format

/-- The fields of a packet, in host form. -/
structure Contents where
  flag : Fin 12 → UInt16
  azimuth : Fin 12 → UInt16
  distance : Slot → UInt16
  rssi : Slot → UInt8
  timestamp : UInt32
  factoryInfo : UInt16

namespace Contents

def blockByte (c : Contents) (b : Fin 12) (r : Nat) : UInt8 :=
  if r < 2 then Memory.byte16 (c.flag b) r
  else if r < 4 then Memory.byte16 (c.azimuth b) (r - 2)
  else
    let i : Fin 16 := ⟨(r - 4) / 6 % 16, Nat.mod_lt _ (by omega)⟩
    let s : Slot := ⟨b, i, if (r - 4) % 6 < 3 then .strongest else .last⟩
    if (r - 4) % 3 = 2 then c.rssi s else Memory.byte16 (c.distance s) ((r - 4) % 3)

def encode (c : Contents) : Memory := fun n =>
  if n < 1200 then c.blockByte ⟨n / 100 % 12, Nat.mod_lt _ (by omega)⟩ (n % 100)
  else if n < 1204 then Memory.byte32 c.timestamp (n - 1200)
  else Memory.byte16 c.factoryInfo (n - 1204)

theorem encode_block (c : Contents) (b : Fin 12) {r : Nat} (hr : r < 100) :
    c.encode (100 * b + r) = c.blockByte b r := by
  have hdiv : (100 * b.val + r) / 100 % 12 = b := by omega
  have hmod : (100 * b.val + r) % 100 = r := by omega
  have hlt : 100 * b.val + r < 1200 := by omega
  simp only [encode, hlt, if_true, hdiv, hmod]

@[simp] theorem flag_encode (c : Contents) (b : Fin 12) : Format.flag c.encode b = c.flag b :=
  Memory.be16_eq_of_bytes fun k hk => by
    rw [encode_block c b (by omega), blockByte, if_pos hk]

@[simp] theorem azimuth_encode (c : Contents) (b : Fin 12) : Format.azimuth c.encode b = c.azimuth b :=
  Memory.be16_eq_of_bytes fun k hk => by
    rw [Nat.add_assoc, encode_block c b (by omega), blockByte, if_neg (by omega), if_pos (by omega),
      Nat.add_sub_cancel_left]

theorem encode_slot (c : Contents) (s : Slot) {k : Nat} (hk : k < 3) :
    c.encode (s.offset + k) = if k = 2 then c.rssi s else Memory.byte16 (c.distance s) k := by
  obtain ⟨b, i, kind⟩ := s
  cases kind with
  | strongest =>
    have hi : (4 + 6 * i.val + k - 4) / 6 % 16 = i := by omega
    have hside : (4 + 6 * i.val + k - 4) % 6 < 3 := by omega
    have hbyte : (4 + 6 * i.val + k - 4) % 3 = k := by omega
    rw [Slot.offset, Nat.add_zero, Nat.add_assoc, encode_block c b (by omega), blockByte, if_neg (by omega),
      if_neg (by omega)]
    simp only [hi, hside, hbyte, if_true]
  | last =>
    have hi : (4 + 6 * i.val + (3 + k) - 4) / 6 % 16 = i := by omega
    have hside : ¬(4 + 6 * i.val + (3 + k) - 4) % 6 < 3 := by omega
    have hbyte : (4 + 6 * i.val + (3 + k) - 4) % 3 = k := by omega
    have hoff : (⟨b, i, .last⟩ : Slot).offset + k = 100 * b + (4 + 6 * i + (3 + k)) := by
      simp only [Slot.offset]
      omega
    rw [hoff, encode_block c b (by omega), blockByte, if_neg (by omega), if_neg (by omega)]
    simp only [hi, hside, hbyte, if_false]

@[simp] theorem distance_encode (c : Contents) (s : Slot) : Format.distance c.encode s = c.distance s :=
  Memory.be16_eq_of_bytes fun k hk => by rw [encode_slot c s (by omega), if_neg (by omega)]

@[simp] theorem rssi_encode (c : Contents) (s : Slot) : Format.rssi c.encode s = c.rssi s := encode_slot c s (by omega)

@[simp] theorem timestamp_encode (c : Contents) : Format.timestamp c.encode = c.timestamp :=
  Memory.be32_eq_of_bytes fun k hk => by
    rw [encode, if_neg (by omega), if_pos (by omega), Nat.add_sub_cancel_left]

@[simp] theorem factoryInfo_encode (c : Contents) : Format.factoryInfo c.encode = c.factoryInfo :=
  Memory.be16_eq_of_bytes fun k hk => by
    rw [encode, if_neg (by omega), if_neg (by omega), Nat.add_sub_cancel_left]

def read (data : Memory) : Contents where
  flag := Format.flag data
  azimuth := Format.azimuth data
  distance := Format.distance data
  rssi := Format.rssi data
  timestamp := Format.timestamp data
  factoryInfo := Format.factoryInfo data

/-- Every contents can be laid out and read back. -/
theorem read_encode (c : Contents) : read c.encode = c := by
  simp only [read, funext (flag_encode c), funext (azimuth_encode c), funext (distance_encode c),
    funext (rssi_encode c), timestamp_encode, factoryInfo_encode]

end Contents

def replaceAzimuths (data : Memory) (azimuth : Fin 12 → UInt16) : Memory :=
  ({ Contents.read data with azimuth } : Contents).encode

section ReplaceAzimuths
variable (data : Memory) (f : Fin 12 → UInt16)

@[simp] theorem flag_replaceAzimuths (b : Fin 12) : flag (replaceAzimuths data f) b = flag data b :=
  Contents.flag_encode _ b

@[simp] theorem azimuth_replaceAzimuths (b : Fin 12) : azimuth (replaceAzimuths data f) b = f b :=
  Contents.azimuth_encode _ b

@[simp] theorem distance_replaceAzimuths (s : Slot) : distance (replaceAzimuths data f) s = distance data s :=
  Contents.distance_encode _ s

@[simp] theorem rssi_replaceAzimuths (s : Slot) : rssi (replaceAzimuths data f) s = rssi data s :=
  Contents.rssi_encode _ s

end ReplaceAzimuths

/-- A sum of hundredths of a degree reduced to one turn fits the field of an azimuth. -/
theorem toNat_ofNat_turn (n : Int) : ((UInt16.ofNat (n % 36000).toNat).toNat : Int) = n % 36000 := by
  rw [UInt16.toNat_ofNat']
  omega

end LidarInterface
