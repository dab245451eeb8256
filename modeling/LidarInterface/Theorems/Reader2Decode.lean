import LidarInterface.Format
import LidarInterface.Reader2.MSOPParser
import Mathlib.Data.List.Forall2
import Mathlib.Data.List.Induction

/-! What `reader2.0`'s `parsePacket` decodes. Its nested loops emit one point for each slot of the format
    whose return is valid, in packet order, and nothing depends on the host or on earlier calls. -/

namespace LidarInterface.Reader2
open Foundation Format Arithmetic

/-! ### Fields -/

section Load
variable (host : ByteOrder) (data : Memory) (b : Fin 12) (i : Fin 16)

@[simp] theorem flag_load : be16ToHost host ((MSOPPacket.load host data).dataBlocks b).flag = flag data b :=
  host.ntohs_load16 _ _

@[simp] theorem azimuth_load : be16ToHost host ((MSOPPacket.load host data).dataBlocks b).azimuth = azimuth data b :=
  (host.ntohs_load16 _ _).trans (Memory.be16_shift ..)

@[simp] theorem distanceStrongest_load :
    be16ToHost host (((MSOPPacket.load host data).dataBlocks b).measurements i).distanceStrongest =
      distance data ⟨b, i, .strongest⟩ := by
  refine (host.ntohs_load16 _ _).trans ?_
  simp only [Memory.be16_shift, distance, Slot.offset, Nat.add_zero]

@[simp] theorem distanceLast_load :
    be16ToHost host (((MSOPPacket.load host data).dataBlocks b).measurements i).distanceLast =
      distance data ⟨b, i, .last⟩ := by
  refine (host.ntohs_load16 _ _).trans ?_
  simp only [Memory.be16_shift, distance, Slot.offset, Nat.add_assoc]

@[simp] theorem rssiStrongest_load :
    (((MSOPPacket.load host data).dataBlocks b).measurements i).rssiStrongest = rssi data ⟨b, i, .strongest⟩ := by
  simp only [MSOPPacket.load, DataBlock.load, MeasuringResult.load, Memory.shift_apply, rssi, Slot.offset,
    Nat.add_assoc, Nat.zero_add]

@[simp] theorem rssiLast_load :
    (((MSOPPacket.load host data).dataBlocks b).measurements i).rssiLast = rssi data ⟨b, i, .last⟩ := by
  simp only [MSOPPacket.load, DataBlock.load, MeasuringResult.load, Memory.shift_apply, rssi, Slot.offset,
    Nat.add_assoc]

@[simp] theorem timestamp_load : be32ToHost host (MSOPPacket.load host data).tail.timestamp = timestamp data :=
  (host.ntohl_load32 _ _).trans (Memory.be32_shift ..)

@[simp] theorem factoryInfo_load : be16ToHost host (MSOPPacket.load host data).tail.factoryInfo = factoryInfo data :=
  (host.ntohs_load16 _ _).trans (Memory.be16_shift ..)

end Load

def Valid (data : Memory) (b : Fin 12) : Prop := flag data b = dataFlag ∧ azimuth data b ≠ 0xFFFF

instance (data : Memory) : DecidablePred (Valid data) := fun _ => inferInstanceAs (Decidable (_ ∧ _))

/-- An azimuth of one turn is not the invalid one. -/
theorem valid_of_lt {data : Memory} {b : Fin 12} (hflag : flag data b = dataFlag)
    (hlt : (azimuth data b).toNat < 36000) : Valid data b := by
  refine ⟨hflag, fun he => ?_⟩
  rw [he] at hlt
  exact absurd hlt (by decide)

@[simp] theorem isValidDataBlock_load (host : ByteOrder) (data : Memory) (b : Fin 12) :
    isValidDataBlock host ((MSOPPacket.load host data).dataBlocks b) = decide (Valid data b) := by
  rw [Bool.eq_iff_iff, decide_eq_true_iff]
  simp [isValidDataBlock, Valid, dataFlag]

def towards (data : Memory) (b : Fin 12) : UInt16 :=
  if h : b.val < 11 then if Valid data ⟨b + 1, succ_lt h⟩ then azimuth data ⟨b + 1, succ_lt h⟩ else azimuth data b
  else azimuth data b

@[simp] theorem nextAzimuth_load (host : ByteOrder) (data : Memory) (b : Fin 12) :
    nextAzimuth host (.load host data) b = towards data b := by
  unfold nextAzimuth towards
  simp only [isValidDataBlock_load, azimuth_load, decide_eq_true_eq]

/-! ### Azimuths and distances -/

theorem toNat_ofInt (x : Int) : ((UInt16.ofInt x).toNat : Int) = x % 65536 := by
  rw [UInt16.ofInt, UInt16.toNat_ofNat']
  omega

section Rounded
variable [Arithmetic]

/-- The azimuth is not negative and small before it is reduced, so only the second loop runs, and it ends. -/
theorem calculateAzimuth_eq_lower (a n : UInt16) (i : Nat) : ∃ c : UInt16,
    calculateAzimuth a n i = Wrap.lower float turn_pos (float ((c.toNat : ℚ) / 100)) ∧
    0 ≤ float ((c.toNat : ℚ) / 100) ∧ float ((c.toNat : ℚ) / 100) ≤ 2 ^ 20 * 360 := by
  refine ⟨.ofInt (a.toNat + resolution a n * i), ?_, ?_, ?_⟩
  · rw [calculateAzimuth, Wrap.normalize, Wrap.raise_of_nonneg]
    exact lawful_float.nonneg (by positivity)
  · exact lawful_float.nonneg (by positivity)
  · have hlt : ((UInt16.ofInt (a.toNat + resolution a n * i)).toNat : ℚ) < 65536 := by
      exact_mod_cast (UInt16.ofInt (a.toNat + resolution a n * i)).toNat_lt
    have hround := (lawful_float.mem
      (by positivity : 0 ≤ ((UInt16.ofInt (a.toNat + resolution a n * i)).toNat : ℚ) / 100)).2
    linarith

theorem calculateAzimuth_nonneg (a n : UInt16) (i : Nat) : 0 ≤ calculateAzimuth a n i := by
  obtain ⟨c, he, h0, -⟩ := calculateAzimuth_eq_lower a n i
  rw [he]
  exact Wrap.lower_nonneg _ lawful_float h0

theorem calculateAzimuth_lt (a n : UInt16) (i : Nat) : calculateAzimuth a n i < 360 := by
  obtain ⟨c, he, -, h1⟩ := calculateAzimuth_eq_lower a n i
  rw [he]
  exact Wrap.lower_lt _ lawful_float h1

/-- An azimuth is a `float`. -/
theorem float_calculateAzimuth (a n : UInt16) (i : Nat) : float (calculateAzimuth a n i) = calculateAzimuth a n i := by
  obtain ⟨c, he, -, -⟩ := calculateAzimuth_eq_lower a n i
  rw [he]
  exact Wrap.lower_self _ lawful_float (lawful_float.idem _)

theorem calculateAzimuth_zero (a n : UInt16) :
    calculateAzimuth a n 0 = Wrap.normalize float turn_pos (float ((a.toNat : ℚ) / 100)) := by
  have hsum : UInt16.ofInt (a.toNat + resolution a n * (0 : ℕ)) = a := UInt16.toNat_inj.mp (by
    have := toNat_ofInt (a.toNat + resolution a n * (0 : ℕ))
    have := a.toNat_lt
    omega)
  rw [calculateAzimuth, hsum]

theorem isValidAzimuth_calculateAzimuth (a n : UInt16) (i : Nat) :
    isValidAzimuth (calculateAzimuth a n i) = true := by
  simp [isValidAzimuth, calculateAzimuth_nonneg, (calculateAzimuth_lt a n i).le]

end Rounded

open Exact in
theorem calculateAzimuth_exact (a n : UInt16) (i : Nat) : calculateAzimuth a n i =
    toIcoMod turn_pos 0 (((UInt16.ofInt (a.toNat + resolution a n * i)).toNat : ℚ) / 100) := by
  rw [calculateAzimuth, float_id, Wrap.normalize_eq, id]

def InRange (d : UInt16) : Prop := 100 ≤ d.toNat ∧ d.toNat ≤ 15000

instance : DecidablePred InRange := fun _ => inferInstanceAs (Decidable (_ ∧ _))

theorem InRange.ne_sentinel {d : UInt16} (h : InRange d) : d ≠ 0 ∧ d ≠ 0xFFFF := by
  constructor
  · rintro rfl
    exact absurd h.1 (by decide)
  · rintro rfl
    exact absurd h.2 (by decide)

/-! ### Slots -/

/-- The slot holds a return that is emitted: its block is valid, its distance is in range, and a last
    return differs from the strongest one of the same measurement. -/
def Emits (data : Memory) (s : Slot) : Prop :=
  Valid data s.block ∧ InRange (distance data s) ∧ (s.kind = .last → distance data s ≠ distance data s.strongest)

instance (data : Memory) : DecidablePred (Emits data) := fun _ => inferInstanceAs (Decidable (_ ∧ _ ∧ (_ → _)))

section Rounded
variable [Arithmetic]

/-- A distance in millimetres as a number of metres. -/
abbrev meters (d : UInt16) : ℚ := float ((d.toNat : ℚ) / 1000)

/-- Distances compare as their readings in millimetres do. -/
theorem meters_lt_iff {d : UInt16} {n : ℕ} (hn : n < 2 ^ 16) :
    (meters d < float ((n : ℚ) / 1000) ↔ d.toNat < n) ∧ (float ((n : ℚ) / 1000) < meters d ↔ n < d.toNat) :=
  ⟨lawful_float.div_lt_div_iff (by norm_num) hn, lawful_float.div_lt_div_iff (by norm_num) d.toNat_lt⟩

theorem tenth_eq : float (1 / 10) = float ((100 : ℕ) / 1000) := by norm_num

theorem natCast_eq {n : ℕ} (hn : n < 2 ^ 24) : (n : ℚ) = float ((1000 * n : ℕ) / 1000) := by
  have hdiv : ((1000 * n : ℕ) : ℚ) / 1000 = n := by
    push_cast
    field_simp
  rw [hdiv, lawful_float.natCast n hn]

theorem isValidDistance_eq (d : UInt16) : isValidDistance (meters d) = decide (InRange d) := by
  have hfifteen : (15 : ℚ) = float ((15000 : ℕ) / 1000) := natCast_eq (n := 15) (by norm_num)
  have hlow : meters d ≥ float (1 / 10) ↔ 100 ≤ d.toNat := by
    rw [tenth_eq, ge_iff_le, ← not_lt, (meters_lt_iff (by norm_num)).1, not_lt]
  have hhigh : meters d ≤ 15 ↔ d.toNat ≤ 15000 := by
    rw [hfifteen, ← not_lt, (meters_lt_iff (by norm_num)).2, not_lt]
  rw [Bool.eq_iff_iff, decide_eq_true_iff]
  simp only [isValidDistance, hlow, hhigh, InRange, Bool.and_eq_true, decide_eq_true_iff]

def point (data : Memory) (s : Slot) : LidarPoint where
  azimuth := calculateAzimuth (azimuth data s.block) (towards data s.block) s.index
  distance := meters (distance data s)
  rssi := rssi data s
  isValid := true
  isStrongest := s.kind = .strongest

def decode (data : Memory) : List LidarPoint := (Slot.all.filter fun s => Emits data s).map (point data)

theorem pushPoint_eq (a n : UInt16) (i : Fin 16) (d : UInt16) (r : UInt8) (k : Bool) (points : List LidarPoint) :
    pushPoint a n i d r k points = points ++
      if InRange d then [⟨calculateAzimuth a n i, meters d, r, true, k⟩] else [] := by
  by_cases h : InRange d <;>
    simp [pushPoint, isValidAzimuth_calculateAzimuth, isValidDistance_eq, h]

/-- The test for the two sentinels is subsumed by the range check. -/
theorem pushPoint_guarded (a n : UInt16) (i : Fin 16) (d : UInt16) (r : UInt8) (k : Bool) (c : Prop) [Decidable c]
    (points : List LidarPoint) :
    (if d ≠ 0 ∧ d ≠ 0xFFFF ∧ c then pushPoint a n i d r k points else points) = points ++
      if InRange d ∧ c then [⟨calculateAzimuth a n i, meters d, r, true, k⟩] else [] := by
  rw [pushPoint_eq]
  by_cases hd : InRange d
  · obtain ⟨h0, h1⟩ := hd.ne_sentinel
    by_cases hc : c <;> simp [hd, h0, h1, hc]
  · simp [hd]

theorem parseMeasurement_eq (host : ByteOrder) (data : Memory) {b : Fin 12} (hb : Valid data b) (i : Fin 16)
    (points : List LidarPoint) :
    parseMeasurement host (azimuth data b) (towards data b)
      (((MSOPPacket.load host data).dataBlocks b).measurements i) i points =
    points ++ ((if Emits data ⟨b, i, .strongest⟩ then [point data ⟨b, i, .strongest⟩] else []) ++
      if Emits data ⟨b, i, .last⟩ then [point data ⟨b, i, .last⟩] else []) := by
  have hstrongest : Emits data ⟨b, i, .strongest⟩ ↔ InRange (distance data ⟨b, i, .strongest⟩) ∧ True := by
    simp [Emits, hb]
  have hlast : Emits data ⟨b, i, .last⟩ ↔ InRange (distance data ⟨b, i, .last⟩) ∧
      distance data ⟨b, i, .last⟩ ≠ distance data ⟨b, i, .strongest⟩ := by
    simp [Emits, hb, Slot.strongest]
  have htrue : ∀ d : UInt16, (d ≠ 0 ∧ d ≠ 0xFFFF) = (d ≠ 0 ∧ d ≠ 0xFFFF ∧ True) := fun d => by simp
  simp only [parseMeasurement, distanceStrongest_load, distanceLast_load, rssiStrongest_load, rssiLast_load, htrue,
    pushPoint_guarded, hstrongest, hlast, List.append_assoc]
  rfl

theorem parseBlock_eq (host : ByteOrder) (data : Memory) (points : List LidarPoint) (b : Fin 12) :
    parseBlock host (.load host data) points b =
      points ++ ((Slot.ofBlock b).filter fun s => Emits data s).map (point data) := by
  unfold parseBlock
  by_cases hb : Valid data b
  · simp only [isValidDataBlock_load, hb, decide_true, Bool.not_true, Bool.false_eq_true, if_false, azimuth_load,
      nextAzimuth_load, parseMeasurement_eq host data hb, List.foldl_append_eq_append, Slot.map_filter_ofBlock,
      List.flatMap_def]
  · have hnone : ∀ i k, ¬Emits data ⟨b, i, k⟩ := fun i k h => hb h.1
    simp [Slot.map_filter_ofBlock, hb, hnone]

theorem parsePacket_of_size {host : ByteOrder} {self : MSOPParser} {data : Memory} {points : List LidarPoint} :
    self.parsePacket host data 1206 points = ⟨true, ⟨timestamp data, factoryInfo data⟩, decode data⟩ := by
  have hloop : (List.finRange 12).foldl (parseBlock host (.load host data)) [] = decode data := by
    rw [funext₂ (parseBlock_eq host data), List.foldl_append_eq_append, decode, Slot.map_filter_all,
      List.nil_append, List.flatMap_def]
  simp only [MSOPParser.parsePacket, sizeofMSOPPacket, ne_eq, not_true_eq_false, if_false, timestamp_load,
    factoryInfo_load, hloop]

theorem parsePacket_of_ne {host : ByteOrder} {self : MSOPParser} {data : Memory} {size : Nat}
    {points : List LidarPoint} (h : size ≠ 1206) : self.parsePacket host data size points = ⟨false, self, []⟩ := by
  simp [MSOPParser.parsePacket, sizeofMSOPPacket, h]

end Rounded

/-! ### Locality -/

section Locality
variable {data data' : Memory}

theorem valid_congr {b : Fin 12} (h : SameBlock data data' b) : Valid data b ↔ Valid data' b := by
  rw [Valid, Valid, h.flag, h.azimuth]

theorem sameValid_of_samePacket (h : SamePacket data data') : SameValid Valid data data' where
  valid_iff b := valid_congr (h.sameBlock b)
  same b _ := h.sameBlock b

variable (h : SameValid Valid data data')
include h

theorem towards_congr {b : Fin 12} (hb : Valid data b) : towards data b = towards data' b := by
  unfold towards
  split
  · next hlt =>
    by_cases hv : Valid data ⟨b + 1, succ_lt hlt⟩
    · rw [if_pos hv, if_pos ((h.valid_iff _).mp hv), (h.same _ hv).azimuth]
    · rw [if_neg hv, if_neg fun hv' => hv ((h.valid_iff _).mpr hv'), (h.same b hb).azimuth]
  · exact (h.same b hb).azimuth

theorem emits_congr (s : Slot) : Emits data s ↔ Emits data' s := by
  rw [Emits, Emits, ← h.valid_iff]
  refine and_congr_right fun hv => ?_
  rw [(h.same _ hv).distance s, SameBlock.distance s.strongest (h.same _ hv)]

theorem point_congr [Arithmetic] {s : Slot} (hv : Valid data s.block) : point data s = point data' s := by
  rw [point, point, towards_congr h hv, (h.same _ hv).azimuth, (h.same _ hv).distance s, (h.same _ hv).rssi s]

theorem decode_congr [Arithmetic] : decode data = decode data' :=
  Slot.map_filter_congr (emits_congr h) fun _ hemits => point_congr h hemits.1

end Locality

/-! ### Sequences of calls -/

structure Call where
  data : Memory
  size : Nat

section Rounded
variable [Arithmetic]

/-- One parser and one reused vector after a sequence of calls. -/
def session (host : ByteOrder) (points : List LidarPoint) (calls : List Call) : MSOPParser × List LidarPoint :=
  calls.foldl (fun st call =>
    let result := st.1.parsePacket host call.data call.size st.2
    (result.parser, result.points)) ({}, points)

theorem session_append (host : ByteOrder) (points : List LidarPoint) (calls : List Call) (call : Call) :
    session host points (calls ++ [call]) =
      (((session host points calls).1.parsePacket host call.data call.size (session host points calls).2).parser,
        ((session host points calls).1.parsePacket host call.data call.size (session host points calls).2).points) := by
  rw [session, List.foldl_append]
  rfl

/-- The parser keeps the tail of the last packet it accepted. -/
theorem parser_session (host : ByteOrder) (points : List LidarPoint) (calls : List Call) :
    (session host points calls).1 = match (calls.filter fun call => call.size = 1206).getLast? with
      | none => {}
      | some call => ⟨timestamp call.data, factoryInfo call.data⟩ := by
  induction calls using List.reverseRecOn with
  | nil => rfl
  | append_singleton calls call ih =>
    rw [session_append]
    obtain ⟨data, size⟩ := call
    by_cases hs : size = 1206
    · subst hs
      simp [parsePacket_of_size]
    · simp [parsePacket_of_ne hs, hs, ih]

structure Carries (data : Memory) (s : Slot) (p : LidarPoint) : Prop where
  distance : p.distance = meters (distance data s)
  rssi : p.rssi = rssi data s
  kind : p.isStrongest = decide (s.kind = .strongest)
  valid : p.isValid = true
  azimuth_nonneg : 0 ≤ p.azimuth
  azimuth_lt : p.azimuth < 360

theorem carries_point (data : Memory) (s : Slot) : Carries data s (point data s) :=
  ⟨rfl, rfl, rfl, rfl, calculateAzimuth_nonneg _ _ _, calculateAzimuth_lt _ _ _⟩

omit [Arithmetic] in
theorem mem_slots {data : Memory} {s : Slot} : s ∈ Slot.all.filter (fun s => Emits data s) ↔ Emits data s := by
  simp [Slot.mem_all]

/-- After any calls, the next call accepts exactly the packet size. Refused, it clears the vector and keeps
    the parser. Accepted, it stores the tail, and the vector holds one point for each slot that emits, in
    packet order, whatever the parser and the vector held before. -/
theorem parsePacket_exact (host : ByteOrder) (points : List LidarPoint) (history : List Call) (data : Memory)
    (size : Nat) :
    let st := session host points history
    let result := st.1.parsePacket host data size st.2
    (result.ok = true ↔ size = 1206) ∧
    (result.ok = false → result.points = [] ∧ result.parser = st.1) ∧
    (result.ok = true →
      result.parser.lastTimestamp = data.be32 1200 ∧ result.parser.lastFactoryInfo = data.be16 1204 ∧
      ∃ slots : List Slot, (slots.Pairwise fun s s' => s.offset < s'.offset) ∧ (∀ s, s ∈ slots ↔ Emits data s) ∧
        List.Forall₂ (Carries data) slots result.points) ∧
    ∀ (self : MSOPParser) (old : List LidarPoint),
      (self.parsePacket host data size old).points = result.points := by
  intro st result
  by_cases hs : size = 1206
  · subst hs
    have hresult : result = ⟨true, ⟨timestamp data, factoryInfo data⟩, decode data⟩ := parsePacket_of_size
    rw [hresult]
    refine ⟨by simp, by simp, fun _ => ⟨rfl, rfl, _, Slot.all_ordered.filter _, fun _ => mem_slots, ?_⟩, ?_⟩
    · rw [decode, List.forall₂_map_right_iff, List.forall₂_same]
      exact fun s _ => carries_point data s
    · intro self old
      rw [parsePacket_of_size]
  · have hresult : result = ⟨false, st.1, []⟩ := parsePacket_of_ne hs
    rw [hresult]
    refine ⟨by simp [hs], by simp, by simp, fun self old => ?_⟩
    rw [parsePacket_of_ne hs]

end Rounded

end LidarInterface.Reader2
