import LidarInterface.Theorems.Reader2Decode
import LidarInterface.Theorems.SlamSweep

/-! What the byte order of the host changes. `reader2.0` converts every field once before it is used, so nothing
    depends on the host. `slam_lidar_cpp` compares the flag of a block as it was loaded: on a little-endian host the
    blocks flagged `FF EE` are valid, and on a big-endian host those flagged `EE FF`. -/

namespace LidarInterface
open Foundation Format Arithmetic

/-! ### reader2.0 -/

theorem Reader2.isLastPacket_load (host : ByteOrder) (data : Memory) :
    Reader2.isLastPacket host (.load host data) =
      (List.finRange 12).all fun i => decide (i.val < 6) || flag data i == 0xFFFF := by
  simp only [Reader2.isLastPacket, Reader2.flag_load]

namespace Slam

/-! ### The flag of a host -/

/-- The flag of a valid block, as the bytes of the packet spell it: `FF EE` for a little-endian host, `EE FF` for a
    big-endian one. -/
def hostFlag (host : ByteOrder) : UInt16 := host.ntohs validFlag

theorem valid_iff_hostFlag {host : ByteOrder} {data : Memory} {b : Fin 12} :
    Valid host data b ↔ flag data b = hostFlag host := valid_iff

/-! ### Other fields -/

theorem getTimestamp_load (host : ByteOrder) (data : Memory) : getTimestamp host data 1206 = timestamp data :=
  host.ntohl_load32 _ _

theorem getFactoryInfo_load (host : ByteOrder) (data : Memory) : getFactoryInfo host data 1206 = factoryInfo data :=
  host.ntohs_load16 _ _

/-- How many of the blocks 6 to 11 do not have the flag. -/
def unflagged (f : UInt16) (data : Memory) : Nat :=
  (List.finRange 12).countP fun b => decide (6 ≤ b.val) && decide (flag data b ≠ f)

theorem isLastPacket_load (host : ByteOrder) (data : Memory) :
    isLastPacket host data 1206 = decide (3 ≤ unflagged (hostFlag host) data) := by
  have hinvalid : ∀ b, (!isValidBlock ((MSOPPacket.load host data).blocks b)) =
      decide (flag data b ≠ hostFlag host) := by
    intro b
    have hiff : isValidBlock ((MSOPPacket.load host data).blocks b) = true ↔ flag data b = hostFlag host :=
      valid_iff_hostFlag
    rw [Bool.eq_iff_iff, Bool.not_eq_true', ← Bool.not_eq_true, hiff, decide_eq_true_iff]
  rw [isLastPacket, if_neg (by decide)]
  simp only [hinvalid]
  rfl

/-! ### Two flags -/

/-- The returns in the blocks with flag `f`, in packet order. -/
def returnsOf (f : UInt16) (data : Memory) : List Slot :=
  Slot.all.filter fun s => flag data s.block = f ∧ Present data s

theorem returnsOf_eq_nil_iff {f : UInt16} {data : Memory} :
    returnsOf f data = [] ↔ ∀ s, flag data s.block = f → ¬Present data s := by
  simp only [returnsOf, List.filter_eq_nil_iff, Slot.mem_all, decide_eq_true_eq, not_and, forall_const]

theorem kind_eq_of_strongest_iff {k k' : ReturnKind} (h : k = .strongest ↔ k' = .strongest) : k = k' := by
  cases k with
  | strongest => exact (h.mp rfl).symm
  | last =>
    cases k' with
    | strongest => exact h.mpr rfl
    | last => rfl

section Rounded
variable [Arithmetic]

/-- The return of a slot on a little-endian host is that of another slot on a big-endian one: the fields are the same,
    and the azimuths, interpolated to the neighbours that each host takes for valid. -/
structure Alike (data : Memory) (s s' : Slot) : Prop where
  kind : s.kind = s'.kind
  distance : distance data s = distance data s'
  rssi : rssi data s = rssi data s'
  azimuth : (pointOn .little data s).azimuthDegrees = (pointOn .big data s').azimuthDegrees

theorem parsePacket_returnsOf (host : ByteOrder) (data : Memory) :
    parsePacket host data 1206 = (returnsOf (hostFlag host) data).map (pointOn host data) := by
  rw [parsePacket_slots, returnsOf]
  exact Slot.map_filter_congr (fun s => and_congr_left' valid_iff_hostFlag) fun _ _ => rfl

theorem pointOn_eq_iff (data : Memory) (s s' : Slot) :
    pointOn .little data s = pointOn .big data s' ↔ Alike data s s' := by
  constructor
  · intro he
    have hdist : double (((distance data s).toNat : ℚ) / 1000) = double (((distance data s').toNat : ℚ) / 1000) :=
      congrArg ParsedPoint.distanceMeters he
    rw [lawful_double.div_inj (by norm_num) (distance data s).toNat_lt (distance data s').toNat_lt,
      UInt16.toNat_inj] at hdist
    have hkind : decide (s.kind = .strongest) = decide (s'.kind = .strongest) :=
      congrArg ParsedPoint.useStrongestReturn he
    exact ⟨kind_eq_of_strongest_iff (decide_eq_decide.mp hkind), hdist, congrArg ParsedPoint.rssi he,
      congrArg ParsedPoint.azimuthDegrees he⟩
  · rintro ⟨hkind, hdist, hrssi, hazimuth⟩
    have hpoint : pointOn .little data s = ⟨(pointOn .little data s).azimuthDegrees,
      double (((distance data s).toNat : ℚ) / 1000), rssi data s, true, s.kind = .strongest⟩ := rfl
    rw [hpoint, hazimuth, hdist, hrssi, hkind]
    rfl

theorem parsePacket_eq_iff (data : Memory) : parsePacket .little data 1206 = parsePacket .big data 1206 ↔
    List.Forall₂ (Alike data) (returnsOf dataFlag data) (returnsOf validFlag data) := by
  rw [parsePacket_returnsOf, parsePacket_returnsOf, ← List.forall₂_eq_eq_eq, List.forall₂_map_left_iff,
    List.forall₂_map_right_iff]
  simp only [pointOn_eq_iff]
  rfl

end Rounded

end Slam

/-! ### Both parsers -/

section Rounded
variable [Arithmetic]

/-- What the two parsers make of a packet is the same on hosts of either byte order. -/
structure SameOnHosts (data : Memory) : Prop where
  reader2_parsePacket : ∀ (self : Reader2.MSOPParser) (points : List Reader2.LidarPoint),
    self.parsePacket .little data 1206 points = self.parsePacket .big data 1206 points
  reader2_isLastPacket :
    Reader2.isLastPacket .little (.load .little data) = Reader2.isLastPacket .big (.load .big data)
  slam_parsePacket : Slam.parsePacket .little data 1206 = Slam.parsePacket .big data 1206
  slam_getTimestamp : Slam.getTimestamp .little data 1206 = Slam.getTimestamp .big data 1206
  slam_getFactoryInfo : Slam.getFactoryInfo .little data 1206 = Slam.getFactoryInfo .big data 1206
  slam_isLastPacket : Slam.isLastPacket .little data 1206 = Slam.isLastPacket .big data 1206

namespace SameOnHosts
variable (host host' : ByteOrder) (data : Memory)

theorem parsePacket (self : Reader2.MSOPParser) (points : List Reader2.LidarPoint) :
    self.parsePacket host data 1206 points = self.parsePacket host' data 1206 points := by
  rw [Reader2.parsePacket_of_size, Reader2.parsePacket_of_size]

omit [Arithmetic] in
theorem isLastPacket : Reader2.isLastPacket host (.load host data) = Reader2.isLastPacket host' (.load host' data) := by
  rw [Reader2.isLastPacket_load, Reader2.isLastPacket_load]

omit [Arithmetic] in
theorem getTimestamp : Slam.getTimestamp host data 1206 = Slam.getTimestamp host' data 1206 := by
  rw [Slam.getTimestamp_load, Slam.getTimestamp_load]

omit [Arithmetic] in
theorem getFactoryInfo : Slam.getFactoryInfo host data 1206 = Slam.getFactoryInfo host' data 1206 := by
  rw [Slam.getFactoryInfo_load, Slam.getFactoryInfo_load]

end SameOnHosts

end Rounded

/-! ### When the hosts agree -/

/-- No block with one of the two flags holds a return. -/
def NoReturns (data : Memory) : Prop :=
  ∀ s, flag data s.block = dataFlag ∨ flag data s.block = Slam.validFlag → ¬Slam.Present data s

/-- Three of the blocks 6 to 11 are without the flag `FF EE` exactly when three are without `EE FF`. -/
def SameEnd (data : Memory) : Prop := 3 ≤ Slam.unflagged dataFlag data ↔ 3 ≤ Slam.unflagged Slam.validFlag data

/-- Returns under both flags, where those under one repeat those under the other. -/
def Mirrored [Arithmetic] (data : Memory) : Prop :=
  Slam.returnsOf dataFlag data ≠ [] ∧
    List.Forall₂ (Slam.Alike data) (Slam.returnsOf dataFlag data) (Slam.returnsOf Slam.validFlag data)

section Hosts
variable {data : Memory}

theorem noReturns_iff :
    NoReturns data ↔ Slam.returnsOf dataFlag data = [] ∧ Slam.returnsOf Slam.validFlag data = [] := by
  rw [Slam.returnsOf_eq_nil_iff, Slam.returnsOf_eq_nil_iff]
  exact ⟨fun h => ⟨fun s hs => h s (Or.inl hs), fun s hs => h s (Or.inr hs)⟩, fun h s hs => hs.elim (h.1 s) (h.2 s)⟩

theorem forall₂_iff [Arithmetic] :
    List.Forall₂ (Slam.Alike data) (Slam.returnsOf dataFlag data) (Slam.returnsOf Slam.validFlag data) ↔
      NoReturns data ∨ Mirrored data := by
  rw [noReturns_iff, Mirrored]
  by_cases hnil : Slam.returnsOf dataFlag data = []
  · rw [hnil, List.forall₂_nil_left_iff]
    simp
  · simp [hnil]

theorem not_mirrored [Arithmetic] (hone : (∀ s, flag data s.block = dataFlag → ¬Slam.Present data s) ∨
    ∀ s, flag data s.block = Slam.validFlag → ¬Slam.Present data s) : ¬Mirrored data := by
  rintro ⟨hne, hmirror⟩
  rw [← Slam.returnsOf_eq_nil_iff, ← Slam.returnsOf_eq_nil_iff] at hone
  rcases hone with hnil | hnil
  · exact hne hnil
  · rw [hnil, List.forall₂_nil_right_iff] at hmirror
    exact hne hmirror

theorem sameOnHosts_iff [Arithmetic] : SameOnHosts data ↔ SameEnd data ∧ (NoReturns data ∨ Mirrored data) := by
  have hlast : Slam.isLastPacket .little data 1206 = Slam.isLastPacket .big data 1206 ↔ SameEnd data := by
    rw [Slam.isLastPacket_load, Slam.isLastPacket_load, decide_eq_decide]
    rfl
  rw [← forall₂_iff, ← Slam.parsePacket_eq_iff, ← hlast]
  constructor
  · exact fun h => ⟨h.slam_isLastPacket, h.slam_parsePacket⟩
  · rintro ⟨hend, hpoints⟩
    exact {
      reader2_parsePacket := SameOnHosts.parsePacket _ _ data
      reader2_isLastPacket := SameOnHosts.isLastPacket _ _ data
      slam_parsePacket := hpoints
      slam_getTimestamp := SameOnHosts.getTimestamp _ _ data
      slam_getFactoryInfo := SameOnHosts.getFactoryInfo _ _ data
      slam_isLastPacket := hend }

end Hosts

/-- In every arithmetic neither parser depends on the host when no block with one of the flags `FF EE` and `EE FF` holds
    a return and the two flags tell the same end of a rotation. Unless there are returns under both flags this is also
    necessary, and with such returns they have to repeat each other one by one. All of `reader2.0`, the timestamp and
    the factory information never depend on the host. -/
theorem hosts_agree_iff [Arithmetic] (data : Memory) :
    (NoReturns data ∧ SameEnd data → SameOnHosts data) ∧
    ((∀ s, flag data s.block = dataFlag → ¬Slam.Present data s) ∨
        (∀ s, flag data s.block = Slam.validFlag → ¬Slam.Present data s) →
      (SameOnHosts data ↔ NoReturns data ∧ SameEnd data)) ∧
    (SameOnHosts data ↔ SameEnd data ∧ (NoReturns data ∨ Mirrored data)) ∧
    (∀ (self : Reader2.MSOPParser) (points : List Reader2.LidarPoint),
      self.parsePacket .little data 1206 points = self.parsePacket .big data 1206 points) ∧
    Reader2.isLastPacket .little (.load .little data) = Reader2.isLastPacket .big (.load .big data) ∧
    Slam.getTimestamp .little data 1206 = Slam.getTimestamp .big data 1206 ∧
    Slam.getFactoryInfo .little data 1206 = Slam.getFactoryInfo .big data 1206 := by
  refine ⟨fun h => sameOnHosts_iff.mpr ⟨h.2, Or.inl h.1⟩, fun hone => ?_, sameOnHosts_iff,
    SameOnHosts.parsePacket _ _ data, SameOnHosts.isLastPacket _ _ data, SameOnHosts.getTimestamp _ _ data,
    SameOnHosts.getFactoryInfo _ _ data⟩
  rw [sameOnHosts_iff, or_iff_left (not_mirrored hone), and_comm]

/-- A packet with the given flags, the azimuths of its blocks in pairs, and every return of the blocks that `returns`
    selects at 1 m. -/
def flaggedPacket (f : Fin 12 → UInt16) (returns : Fin 12 → Bool) : Memory :=
  ({ flag := f
     azimuth := fun b => .ofNat (400 * (b.val / 2))
     distance := fun s => if returns s.block then 1000 else 0
     rssi := fun _ => 50
     timestamp := 0
     factoryInfo := 0 } : Contents).encode

/-- The first half is valid without returns, and the second half invalid with returns. -/
def quietPacket : Memory := flaggedPacket (fun b => if b.val < 6 then dataFlag else 0xFFFF) fun b => decide (6 ≤ b.val)

/-- The flags alternate, and every block with the flag `EE FF` repeats the one before it. -/
def mirrorPacket : Memory :=
  flaggedPacket (fun b => if b.val % 2 = 0 then dataFlag else Slam.validFlag) fun _ => true

instance (data : Memory) : Decidable (SameEnd data) := inferInstanceAs (Decidable (_ ↔ _))

section Ieee
open Ieee

/-- Six valid blocks without returns, and a packet whose returns under the two flags repeat each other. -/
theorem hosts_agree_quiet : SameOnHosts quietPacket ∧ (∃ b, flag quietPacket b = dataFlag) ∧
    SameOnHosts mirrorPacket ∧ ¬NoReturns mirrorPacket := by
  have hquiet : NoReturns quietPacket := noReturns_iff.mpr (by decide +kernel)
  have hone : ∀ s, flag quietPacket s.block = dataFlag → ¬Slam.Present quietPacket s := fun s hs => hquiet s (Or.inl hs)
  have hmirror : Mirrored mirrorPacket := by
    refine ⟨by decide +kernel, (Slam.parsePacket_eq_iff mirrorPacket).mp ?_⟩
    decide +kernel
  refine ⟨((hosts_agree_iff quietPacket).2.1 (Or.inl hone)).mpr ⟨hquiet, by decide +kernel⟩, ?_,
    (hosts_agree_iff mirrorPacket).2.2.1.mpr ⟨by decide +kernel, Or.inr hmirror⟩, fun hnone => ?_⟩
  · exact ⟨0, by decide +kernel⟩
  · exact hmirror.1 (noReturns_iff.mp hnone).1

/-- A full packet has 192 returns at 1 m on a little-endian host, and no point on a big-endian one. -/
theorem not_sameOnHosts_full : ¬SameOnHosts (Slam.endPacket 12) := by
  intro h
  have hflag : ∀ b : Fin 12, flag (Slam.endPacket 12) b = dataFlag := fun b => by rw [Slam.flag_endPacket, if_pos b.isLt]
  have hone : ∀ s, flag (Slam.endPacket 12) s.block = Slam.validFlag → ¬Slam.Present (Slam.endPacket 12) s := by
    intro s hs
    rw [hflag] at hs
    exact absurd hs (by decide)
  have hpresent : Slam.Present (Slam.endPacket 12) ⟨0, 0, .strongest⟩ := by decide +kernel
  rcases (sameOnHosts_iff.mp h).2 with hnone | hmirror
  · exact hnone ⟨0, 0, .strongest⟩ (Or.inl (hflag 0)) hpresent
  · exact not_mirrored (Or.inr hone) hmirror

end Ieee

end LidarInterface
