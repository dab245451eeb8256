import LidarInterface.Contents
import LidarInterface.Theorems.Collection

/-! Runs of the visualizer over packets that carry a single return each, in the first measurement of a block. The
    azimuths of the blocks are 4 degrees apart, so a return in block `b` is collected in the bin `8 * b`. -/

namespace LidarInterface.Reader2
open Foundation Format Arithmetic

/-! ### The state after a list of calls -/

section Collect
variable [Arithmetic] (host : ByteOrder) (buffer : Memory)

/-- The state after the calls `rs` of `recvfrom`. -/
def collect (rs : List Recv) : Collector := rs.foldl (Collector.step host) { buffer }

theorem packetCount_collect (rs : List Recv) :
    (collect host buffer rs).packetCount = (rs.filterMap Recv.datagram?).length := by
  induction rs using List.reverseRecOn with
  | nil => rfl
  | append_singleton rs r ih =>
    rw [collect, List.foldl_append, List.filterMap_append, List.length_append, ← ih]
    cases r with
    | error => rfl
    | datagram bytes => exact packetCount_step host _ bytes

theorem collects_collect {rs : List Recv} (hlen : rs.length ≤ maxPackets) :
    Collects host rs (collect host buffer rs) := by
  induction rs using List.reverseRecOn with
  | nil => exact .start buffer
  | append_singleton rs r ih =>
    rw [List.length_append, List.length_singleton] at hlen
    have hcount : (collect host buffer rs).packetCount ≤ rs.length := by
      rw [packetCount_collect]
      exact List.length_filterMap_le _ _
    rw [collect, List.foldl_append]
    exact .step (ih (by omega)) (lt_of_le_of_lt hcount (by omega)) r

end Collect

theorem payload_bytes (data : Memory) : payload (data.bytes 1206) = some (data.bytes 1206) :=
  payload_whole (data.length_bytes 1206)

theorem payload_append_bytes (data : Memory) {header : List UInt8} (h : header.length = 42) :
    payload (header ++ data.bytes 1206) = some (data.bytes 1206) := by
  have hlen : (header ++ data.bytes 1206).length = 1248 := by rw [List.length_append, h, Memory.length_bytes]
  rw [payload_header hlen, List.drop_left' h]

/-! ### Packets with one return -/

/-- The strongest return of measurement 0 of a block. -/
structure Return where
  block : Fin 12
  distance : UInt16
  rssi : UInt8
  deriving DecidableEq

namespace Return

/-- A return in block `b`, modulo the number of blocks. -/
def inBlock (b : Nat) (distance : UInt16) (rssi : UInt8) : Return where
  block := ⟨b % 12, Nat.mod_lt b (by decide)⟩
  distance
  rssi

def slot (x : Return) : Slot := ⟨x.block, 0, .strongest⟩

/-- The packet without any other return. -/
def packet (x : Return) : Memory :=
  ({ flag := fun _ => dataFlag
     azimuth := fun b => .ofNat (400 * b)
     distance := fun s => if s = x.slot then x.distance else 0
     rssi := fun _ => x.rssi
     timestamp := 0
     factoryInfo := 0 } : Contents).encode

/-- The return is collected as a sample. -/
def collected (x : Return) : Bool :=
  decide (100 < x.distance.toNat) && decide (x.distance.toNat < 14000) && decide (15 < x.rssi)

theorem azimuth_packet (x : Return) (b : Fin 12) : (azimuth x.packet b).toNat = 400 * b.val := by
  rw [packet, Contents.azimuth_encode, UInt16.toNat_ofNat']
  omega

theorem emits_packet {x : Return} (hd : InRange x.distance) (s : Slot) : Emits x.packet s ↔ s = x.slot := by
  have hdist : Format.distance x.packet s = if s = x.slot then x.distance else 0 := Contents.distance_encode ..
  have hvalid : Valid x.packet s.block := by
    refine valid_of_lt (Contents.flag_encode ..) ?_
    rw [azimuth_packet]
    omega
  by_cases hs : s = x.slot
  · rw [if_pos hs] at hdist
    have hin : InRange (Format.distance x.packet s) := by rwa [hdist]
    have hkind : s.kind ≠ .last := by
      rw [hs]
      exact ReturnKind.noConfusion
    exact iff_of_true ⟨hvalid, hin, fun hlast => absurd hlast hkind⟩ hs
  · rw [if_neg hs] at hdist
    refine iff_of_false (fun he => ?_) hs
    have h0 := he.2.1
    rw [hdist] at h0
    exact absurd h0 (by decide)

section Rounded
variable [Arithmetic] (x : Return)

/-- The sample that is collected. -/
def sample : LidarPoint := ⟨(4 * x.block.val : ℕ), meters x.distance, x.rssi, true, true⟩

theorem calculateAzimuth_packet : calculateAzimuth (azimuth x.packet x.block) (towards x.packet x.block) 0 =
    (4 * x.block.val : ℕ) := by
  have hdegrees : ((400 * x.block.val : ℕ) : ℚ) / 100 = (4 * x.block.val : ℕ) := by
    push_cast
    ring
  have hlt : ((4 * x.block.val : ℕ) : ℚ) < 360 := by exact_mod_cast (by omega : 4 * x.block.val < 360)
  have h0 : (0 : ℚ) ≤ (4 * x.block.val : ℕ) := Nat.cast_nonneg _
  rw [calculateAzimuth_zero, azimuth_packet, hdegrees, lawful_float.natCast _ (by omega),
    Wrap.normalize_of_mem _ h0 hlt]

theorem decode_packet {x : Return} (hd : InRange x.distance) : decode x.packet = [x.sample] := by
  have hslots : (Slot.all.filter fun s => Emits x.packet s) = [x.slot] := by
    have hsingle : ∀ b : Fin 12, (Slot.all.filter fun s => s = ⟨b, 0, .strongest⟩) = [⟨b, 0, .strongest⟩] := by
      decide +kernel
    rw [List.filter_congr fun s _ => decide_eq_decide.mpr (emits_packet hd s)]
    exact hsingle x.block
  have hdist : Format.distance x.packet x.slot = x.distance := by
    rw [packet, Contents.distance_encode]
    exact if_pos rfl
  have hrssi : Format.rssi x.packet x.slot = x.rssi := Contents.rssi_encode ..
  rw [decode, hslots, List.map_singleton, point, hdist, hrssi]
  exact congrArg (fun a => [(⟨a, meters x.distance, x.rssi, true, true⟩ : LidarPoint)]) x.calculateAzimuth_packet

/-- It passes the filter of the collection in every arithmetic. -/
theorem isSample_sample {x : Return} (h : x.collected = true) : isSample x.sample = true := by
  simp only [collected, Bool.and_eq_true, decide_eq_true_eq] at h
  obtain ⟨⟨hlow, hhigh⟩, hr⟩ := h
  have hfourteen : (14 : ℚ) = float ((14000 : ℕ) / 1000) := natCast_eq (n := 14) (by norm_num)
  have hlow' : meters x.distance > float (1 / 10) := by
    rw [tenth_eq]
    exact (meters_lt_iff (by norm_num)).2.mpr hlow
  have hhigh' : meters x.distance < 14 := by
    rw [hfourteen]
    exact (meters_lt_iff (by norm_num)).1.mpr hhigh
  simp only [isSample, sample, hlow', hhigh', hr, decide_true, Bool.and_self]

end Rounded
end Return

/-! ### Runs -/

/-- The packets of some returns. -/
def returnDatagrams (returns : List Return) : List Recv := returns.map fun x => .datagram (x.packet.bytes 1206)

/-- A whole run: the packets of some returns, and empty datagrams until enough are received. -/
def returnRun (returns : List Return) : List Recv :=
  returnDatagrams returns ++ List.replicate (maxPackets - returns.length) (.datagram [])

section Run
variable {returns : List Return}

theorem payloads_returnDatagrams (returns : List Return) :
    payloads (returnDatagrams returns) = returns.map fun x => x.packet.bytes 1206 := by
  induction returns with
  | nil => rfl
  | cons x returns ih =>
    have hcons : returnDatagrams (x :: returns) = [.datagram (x.packet.bytes 1206)] ++ returnDatagrams returns := rfl
    rw [hcons, payloads_append, ih, payloads_datagram, payload_bytes]
    rfl

theorem payloads_returnRun (returns : List Return) :
    payloads (returnRun returns) = returns.map fun x => x.packet.bytes 1206 := by
  have hempty : payloads (List.replicate (maxPackets - returns.length) (.datagram [])) = [] := by
    simp [payloads, Recv.datagram?, payload]
  rw [returnRun, payloads_append, payloads_returnDatagrams, hempty, List.append_nil]

section Rounded
variable [Arithmetic]

/-- The samples of a run whose payloads are such packets. -/
theorem samples_of_payloads {rs : List Recv} (hpayloads : payloads rs = returns.map fun x => x.packet.bytes 1206)
    (hcollected : returns.all Return.collected = true) : samples .little rs = returns.map Return.sample := by
  rw [samples, hpayloads]
  clear hpayloads
  induction returns with
  | nil => rfl
  | cons x returns ih =>
    obtain ⟨hx, hreturns⟩ := Bool.and_eq_true_iff.mp hcollected
    have hx' := hx
    simp only [Return.collected, Bool.and_eq_true, decide_eq_true_eq] at hx'
    rw [List.map_cons, List.flatMap_cons, List.filter_append, ih hreturns, emitted_bytes,
      Return.decode_packet ⟨by omega, by omega⟩, List.filter_singleton, Return.isSample_sample hx]
    rfl

variable (buffer : Memory) (hlen : returns.length ≤ maxPackets)
include hlen

theorem packetCount_returnRun (host : ByteOrder) :
    (collect host buffer (returnRun returns)).packetCount = maxPackets := by
  rw [packetCount_collect, returnRun, returnDatagrams, List.filterMap_append, List.filterMap_map,
    List.filterMap_replicate]
  simp [Recv.datagram?, Function.comp_def, hlen]

theorem collects_returnRun (host : ByteOrder) :
    Collects host (returnRun returns) (collect host buffer (returnRun returns)) := by
  refine collects_collect host buffer ?_
  rw [returnRun, returnDatagrams, List.length_append, List.length_map, List.length_replicate]
  omega

theorem angleMap_returnRun (hcollected : returns.all Return.collected = true) :
    (collect .little buffer (returnRun returns)).angleMap = Groups.group angleBin (returns.map Return.sample) := by
  rw [(collects_returnRun buffer hlen .little).angleMap_eq,
    samples_of_payloads (payloads_returnRun returns) hcollected]

end Rounded
end Run

/-- Four samples at 0 degrees, two at 8, a strong one at 16 and a weak one at 24, interleaved. -/
def scene : List Return :=
  [.inBlock 2 2000 60, .inBlock 0 1000 50, .inBlock 4 3000 40, .inBlock 0 1100 40, .inBlock 6 3000 20,
    .inBlock 2 2200 30, .inBlock 0 1050 45, .inBlock 0 1020 18]

end LidarInterface.Reader2
