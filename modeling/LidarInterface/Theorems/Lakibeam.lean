import LidarInterface.Foundation.Footprint
import LidarInterface.Slam.Lakibeam
import LidarInterface.Theorems.SlamSweep

/-! What `lakibeam_reader` prints. It keeps one buffer for all datagrams and never clears it, but reads only the bytes
    that were just received; only the format of the block's azimuth depends on earlier datagrams. For a packet it
    prints, for each measurement of block 0, the first point that `slam_lidar_cpp`'s `parsePacket` emits for it, with an
    azimuth of its own. -/

namespace LidarInterface.Lakibeam
open Foundation Format Arithmetic
open Slam (firstBlock)

/-! ### Fields -/

theorem readBe16_eq (data : Memory) : readBe16 data = data.be16 0 := by
  have hlow : (data 1).toNat < 2 ^ 8 := (data 1).toNat_lt
  rw [readBe16, ← Nat.shiftLeft_add_eq_or_of_lt hlow, Nat.shiftLeft_eq]
  rfl

def Measured (data : Memory) (s : Slot) : Prop := distance data s ≠ 0 ∧ distance data s ≠ 0xFFFF

instance (data : Memory) : DecidablePred (Measured data) := fun _ => inferInstanceAs (Decidable (_ ∧ _))

/-- The return that is printed for measurement `i`, unless its signal strength is 0. -/
def chosen (data : Memory) (i : Fin 16) : Option Slot :=
  if Measured data ⟨firstBlock, i, .strongest⟩ then some ⟨firstBlock, i, .strongest⟩
  else if Measured data ⟨firstBlock, i, .last⟩ then some ⟨firstBlock, i, .last⟩
  else none

def rawLines (data : Memory) (i : Fin 16) : List Line :=
  if i.val < 3 then [Line.rawMeasurement i ((data.shift (4 + i.val * 6)).bytes 6)] else []

section Rounded
variable [Arithmetic]

/-- `azimuth_deg`. -/
def blockAzimuth (data : Memory) : ℚ := float (((azimuth data firstBlock).toNat : ℚ) / 100)

def pointLine (data : Memory) (s : Slot) : PointLine where
  point := s.index
  azimuth := float (blockAzimuth data + float (1 / 4 * s.index.val))
  distance := float (((distance data s).toNat : ℚ) / 1000)
  rssi := rssi data s

/-- The lines printed for measurement `i` of a packet, by the fields of the format. -/
def measured (data : Memory) (i : Fin 16) : List Line :=
  rawLines data i ++ (((chosen data i).filter fun s => rssi data s > 0).map fun s => Line.point (pointLine data s)).toList

section Measurement
variable {data : Memory} {i : Fin 16}

omit [Arithmetic] in
/-- The distance and the signal strength that are printed; both are 0 if there is no return. -/
theorem final_eq (data : Memory) (i : Fin 16) :
    (if distance data ⟨firstBlock, i, .strongest⟩ > 0 ∧ distance data ⟨firstBlock, i, .strongest⟩ ≠ 0xFFFF then
        (distance data ⟨firstBlock, i, .strongest⟩, rssi data ⟨firstBlock, i, .strongest⟩)
      else if distance data ⟨firstBlock, i, .last⟩ > 0 ∧ distance data ⟨firstBlock, i, .last⟩ ≠ 0xFFFF then
        (distance data ⟨firstBlock, i, .last⟩, rssi data ⟨firstBlock, i, .last⟩)
      else (0, 0)) =
    match chosen data i with
    | some s => (distance data s, rssi data s)
    | none => (0, 0) := by
  have hmeasured : ∀ s, (distance data s > 0 ∧ distance data s ≠ 0xFFFF) = Measured data s := fun s => by
    rw [Measured, gt_iff_lt, UInt16.pos_iff_ne_zero]
  simp only [hmeasured, chosen]
  split
  · rfl
  · split
    · rfl
    · rfl

omit [Arithmetic] in
theorem measured_of_chosen {s : Slot} (h : chosen data i = some s) :
    Measured data s ∧ s.block = firstBlock ∧ s.index = i := by
  rw [chosen] at h
  split at h
  · next h1 =>
    obtain rfl := Option.some.inj h
    exact ⟨h1, rfl, rfl⟩
  · split at h
    · next h2 =>
      obtain rfl := Option.some.inj h
      exact ⟨h2, rfl, rfl⟩
    · cases h

theorem measurement_eq (data : Memory) (i : Fin 16) :
    measurement (data.shift (4 + i.val * 6)) (blockAzimuth data) i = measured data i := by
  have hoff : 4 + i.val * 6 = 100 * firstBlock.val + (4 + 6 * i.val) := by
    have hfirst : firstBlock.val = 0 := rfl
    omega
  have hd1 : readBe16 (data.shift (4 + i.val * 6)) = distance data ⟨firstBlock, i, .strongest⟩ := by
    rw [readBe16_eq, Memory.be16_shift, hoff]
    rfl
  have hd2 : readBe16 ((data.shift (4 + i.val * 6)).shift 3) = distance data ⟨firstBlock, i, .last⟩ := by
    rw [readBe16_eq, Memory.be16_shift, Memory.be16_shift, hoff]
    rfl
  have hr1 : data.shift (4 + i.val * 6) 2 = rssi data ⟨firstBlock, i, .strongest⟩ := by
    rw [Memory.shift_apply, hoff]
    rfl
  have hr2 : data.shift (4 + i.val * 6) 5 = rssi data ⟨firstBlock, i, .last⟩ := by
    rw [Memory.shift_apply, hoff]
    rfl
  rw [measurement, measured, rawLines, hd1, hd2, hr1, hr2, final_eq]
  refine congrArg (List.append _) ?_
  cases hc : chosen data i with
  | none => rfl
  | some s =>
    obtain ⟨hs, -, hi⟩ := measured_of_chosen hc
    have hpos : distance data s > 0 := UInt16.pos_iff_ne_zero.mpr hs.1
    by_cases hr : rssi data s > 0
    · have hkept : ((some s).filter fun s => decide (rssi data s > 0)) = some s :=
        Option.filter_some_pos (decide_eq_true hr)
      rw [hkept, Option.map_some, Option.toList_some, pointLine, hi]
      exact if_pos ⟨hpos, hr⟩
    · have hdropped : ((some s).filter fun s => decide (rssi data s > 0)) = none :=
        Option.filter_some_neg (decide_eq_false hr)
      rw [hdropped]
      exact if_neg fun h => hr h.2

end Measurement

/-! ### Iterations -/

/-- The lines that follow the length of a datagram of 100 bytes or more, by the fields of the format. -/
def blockLines (floats : FloatFormat) (data : Memory) : List Line :=
  if flag data firstBlock = 0xFFFF ∨ azimuth data firstBlock = 0xFFFF then
    [Line.invalidBlock (flag data firstBlock) (azimuth data firstBlock)]
  else if flag data firstBlock ≠ dataFlag then [Line.invalidFlag (flag data firstBlock)]
  else
    Line.azimuth (blockAzimuth data) floats :: ((List.finRange 16).flatMap (measured data) ++ [Line.separator])

section BlockLines
variable {floats : FloatFormat} {data : Memory}

theorem blockLines_of_valid (hflag : flag data firstBlock = dataFlag) (hazimuth : azimuth data firstBlock ≠ 0xFFFF) :
    blockLines floats data =
      Line.azimuth (blockAzimuth data) floats :: ((List.finRange 16).flatMap (measured data) ++ [Line.separator]) := by
  have hne : ¬(flag data firstBlock = 0xFFFF ∨ azimuth data firstBlock = 0xFFFF) := by
    rw [hflag]
    exact fun h => h.elim (by decide) hazimuth
  rw [blockLines, if_neg hne, if_neg (not_not.mpr hflag)]

theorem blockLines_of_invalid (floats : FloatFormat)
    (h : ¬(flag data firstBlock = dataFlag ∧ azimuth data firstBlock ≠ 0xFFFF)) :
    blockLines floats data = [Line.invalidBlock (flag data firstBlock) (azimuth data firstBlock)] ∨
      blockLines floats data = [Line.invalidFlag (flag data firstBlock)] := by
  rw [blockLines]
  split
  · exact Or.inl rfl
  · next hne =>
    refine Or.inr (if_pos fun hflag => h ⟨hflag, fun hazimuth => hne (Or.inr hazimuth)⟩)

end BlockLines

/-- The lines printed for one call of `recv`. -/
def described (floats : FloatFormat) : Recv → List Line
  | .error => [Line.received (-1), Line.tooSmall]
  | .datagram bytes => Line.received (min bytes.length buflen : Nat) ::
      if bytes.length < 100 then [Line.tooSmall] else blockLines floats (.ofList bytes)

/-- A datagram that holds the block holds each of its measurements. -/
theorem measurements_eq (buffer : Memory) {len : Int} (h : 100 ≤ len) (points : List (Fin 16)) :
    measurements buffer len (blockAzimuth buffer) points = points.flatMap (measured buffer) := by
  induction points with
  | nil => rfl
  | cons point points ih =>
    have hfits : ¬((4 + point.val * 6 : Nat) : Int) + 6 > len := by omega
    rw [List.flatMap_cons, ← ih, ← measurement_eq, measurements]
    exact if_neg hfits

theorem iteration_of_le (floats : FloatFormat) (buffer : Memory) {len : Int} (h : 100 ≤ len) :
    iteration floats buffer len = Line.received len :: blockLines floats buffer := by
  have hflag : readBe16 buffer = flag buffer firstBlock := readBe16_eq buffer
  have hazimuth : readBe16 (buffer.shift 2) = azimuth buffer firstBlock := readBe16_eq _
  rw [iteration, if_neg (by omega), blockLines]
  have hmeasurements := measurements_eq buffer h
  simp only [blockAzimuth] at hmeasurements
  simp only [hflag, hazimuth, hmeasurements]
  rfl

theorem readsBelow_blockLines (floats : FloatFormat) : Memory.ReadsBelow 100 (blockLines floats) := by
  intro m m' hm
  have hblock : SameBlock m m' firstBlock := fun r hr => by
    have hfirst : firstBlock.val = 0 := rfl
    exact hm _ (by omega)
  have hreturn : ∀ i k, Measured m ⟨firstBlock, i, k⟩ ↔ Measured m' ⟨firstBlock, i, k⟩ := fun i k => by
    rw [Measured, Measured, hblock.distance ⟨firstBlock, i, k⟩]
  have hblockAzimuth : blockAzimuth m = blockAzimuth m' := by rw [blockAzimuth, blockAzimuth, hblock.azimuth]
  have hmeasured : ∀ i, measured m i = measured m' i := fun i => by
    have hchosen : chosen m i = chosen m' i := by simp only [chosen, hreturn]
    have hraw : rawLines m i = rawLines m' i := by
      have hbytes : (m.shift (4 + i.val * 6)).bytes 6 = (m'.shift (4 + i.val * 6)).bytes 6 :=
        Memory.bytes_congr.mpr fun k hk => hm _ (by omega)
      rw [rawLines, rawLines, hbytes]
    rw [measured, measured, hraw, hchosen]
    cases hc : chosen m' i with
    | none => rw [Option.filter_none, Option.filter_none, Option.map_none, Option.map_none]
    | some s =>
      obtain ⟨-, hb, -⟩ := measured_of_chosen hc
      have hs : SameBlock m m' s.block := hb ▸ hblock
      have hline : pointLine m s = pointLine m' s := by
        rw [pointLine, pointLine, hblockAzimuth, hs.distance s, hs.rssi s]
      rw [Option.filter_some, Option.filter_some, hs.rssi s]
      split
      · rw [Option.map_some, Option.map_some, hline]
      · rw [Option.map_none, Option.map_none]
  rw [blockLines, blockLines, hblock.flag, hblock.azimuth, hblockAzimuth, funext hmeasured]

theorem out_eq (st : Reader) (r : Recv) : main.out st r = described st.floats r := by
  cases r with
  | error => rfl
  | datagram bytes =>
    have hle : min bytes.length buflen ≤ bytes.length := Nat.min_le_left _ _
    have hout : main.out st (.datagram bytes) = iteration st.floats
        (recvfrom st.buffer buflen (.datagram bytes)).1 (recvfrom st.buffer buflen (.datagram bytes)).2 := rfl
    rw [hout, recvfrom_datagram, described]
    by_cases h : bytes.length < 100
    · rw [if_pos h, iteration, if_pos (by rw [buflen]; omega)]
    · have hlen : 100 ≤ min bytes.length buflen := by
        rw [buflen]
        omega
      rw [if_neg h, iteration_of_le _ _ (by omega), (readsBelow_blockLines st.floats).write hle hlen]

theorem mem_measured {data : Memory} {i : Fin 16} {line : Line} : line ∈ measured data i ↔
    line ∈ rawLines data i ∨ ∃ s, chosen data i = some s ∧ rssi data s > 0 ∧ line = Line.point (pointLine data s) := by
  rw [measured, List.mem_append]
  refine or_congr_right ?_
  rw [Option.mem_toList, Option.map_eq_some_iff]
  constructor
  · rintro ⟨s, hs, rfl⟩
    obtain ⟨hc, hr⟩ := Option.filter_eq_some_iff.mp hs
    exact ⟨s, hc, of_decide_eq_true hr, rfl⟩
  · rintro ⟨s, hc, hr, rfl⟩
    exact ⟨s, Option.filter_eq_some_iff.mpr ⟨hc, decide_eq_true hr⟩, rfl⟩

/-- Only two kinds of lines are printed for a measurement. -/
theorem kind_of_mem_measured {data : Memory} {i : Fin 16} {line : Line} (h : line ∈ measured data i) :
    (∃ bytes, line = Line.rawMeasurement i bytes) ∨ ∃ p, line = Line.point p := by
  rcases mem_measured.mp h with hraw | ⟨s, -, -, rfl⟩
  · rw [rawLines] at hraw
    split at hraw
    · exact Or.inl ⟨_, List.mem_singleton.mp hraw⟩
    · cases hraw
  · exact Or.inr ⟨_, rfl⟩

theorem notEnoughData_notMem (floats : FloatFormat) (r : Recv) (point : Nat) :
    Line.notEnoughData point ∉ described floats r := by
  have hmeasured : ∀ data i, Line.notEnoughData point ∉ measured data i := fun data i h => by
    rcases kind_of_mem_measured h with ⟨bytes, he⟩ | ⟨p, he⟩
    · cases he
    · cases he
  cases r with
  | error => simp [described]
  | datagram bytes =>
    by_cases hlen : bytes.length < 100
    · simp [described, hlen]
    · rw [described, if_neg hlen]
      by_cases hvalid : flag (.ofList bytes) firstBlock = dataFlag ∧ azimuth (.ofList bytes) firstBlock ≠ 0xFFFF
      · simp [blockLines_of_valid hvalid.1 hvalid.2, hmeasured]
      · rcases blockLines_of_invalid floats hvalid with he | he
        · simp [he]
        · simp [he]

/-! ### The format of the azimuth -/

/-- A line of a point is printed for the datagram. -/
def PrintsPoint (r : Recv) : Prop := ∃ line, Line.point line ∈ described .general r

/-- The points do not depend on the format. -/
theorem printsPoint_iff {floats : FloatFormat} {r : Recv} :
    PrintsPoint r ↔ ∃ line, Line.point line ∈ described floats r := by
  have hmem : ∀ line, Line.point line ∈ described .general r ↔ Line.point line ∈ described floats r := fun line => by
    cases r with
    | error => exact Iff.rfl
    | datagram bytes =>
      rw [described, described, List.mem_cons, List.mem_cons]
      split
      · exact Iff.rfl
      · rw [blockLines, blockLines]
        split
        · exact Iff.rfl
        · split
          · exact Iff.rfl
          · simp
  exact exists_congr hmem

omit [Arithmetic] in
theorem foldl_after (floats : FloatFormat) (lines : List Line) : lines.foldl FloatFormat.after floats = .fixed ↔
    floats = .fixed ∨ ∃ line, Line.point line ∈ lines := by
  induction lines generalizing floats with
  | nil => simp
  | cons line lines ih =>
    rw [List.foldl_cons, ih]
    cases line <;> simp [FloatFormat.after]

/-- The format is fixed as soon as one datagram printed a point. -/
theorem floats_state (buffer : Memory) (rs : List Recv) :
    (main.state { buffer } rs).floats = .fixed ↔ ∃ r ∈ rs, PrintsPoint r := by
  induction rs using List.reverseRecOn with
  | nil => simp [Loop.state]
  | append_singleton rs r ih =>
    have hstep : (main.state { buffer } (rs ++ [r])).floats = (described (main.state { buffer } rs).floats r).foldl
        FloatFormat.after (main.state { buffer } rs).floats := by
      rw [Loop.state_append, ← out_eq]
      rfl
    rw [hstep, foldl_after, ih, ← printsPoint_iff]
    simp [or_and_right, exists_or]

/-- What the program prints for a call of `recv` depends on the bytes of that datagram, in every run and whatever the
    buffer held at its start. Only the notation of the block's azimuth depends on the calls before: it has two decimals
    once a point was printed. The test for the end of the datagram never fails. -/
theorem log_eq_described (buffer : Memory) (rs : List Recv) : ∃ floats : Nat → FloatFormat,
    (∀ n, floats n = .fixed ↔ ∃ r ∈ rs.take n, PrintsPoint r) ∧
    main.log { buffer } rs = rs.zipIdx.flatMap (fun call => described (floats call.2) call.1) ∧
    ∀ point, Line.notEnoughData point ∉ main.log { buffer } rs := by
  have hlog : main.log { buffer } rs =
      rs.zipIdx.flatMap fun call => described (main.state { buffer } (rs.take call.2)).floats call.1 := by
    rw [main.log_eq_zipIdx]
    exact List.flatMap_congr fun call _ => out_eq _ _
  refine ⟨_, fun n => floats_state buffer (rs.take n), hlog, fun point h => ?_⟩
  rw [hlog] at h
  obtain ⟨call, -, hcall⟩ := List.mem_flatMap.mp h
  exact notEnoughData_notMem _ _ point hcall

end Rounded

/-! ### The packet parser -/

section Parser
open Exact

variable {data : Memory} {i : Fin 16}

/-- What is printed for a point that the parser emits for measurement `i`. -/
def ofPoint (data : Memory) (i : Fin 16) (p : Slam.ParsedPoint) : PointLine where
  point := i
  azimuth := Slam.degrees data firstBlock + 1 / 4 * i.val
  distance := p.distanceMeters
  rssi := p.rssi

theorem ofPoint_pointOn {s : Slot} (h : chosen data i = some s) :
    ofPoint data i (Slam.pointOn .little data s) = pointLine data s := by
  obtain ⟨-, -, rfl⟩ := measured_of_chosen h
  rfl

/-- The return that is printed is the first one that the parser emits. -/
theorem head?_pointsOf (hflag : flag data firstBlock = dataFlag) :
    (Slam.pointsOf .little data firstBlock i).head? = (chosen data i).map (Slam.pointOn .little data) := by
  have hvalid : Slam.Valid .little data firstBlock := Slam.valid_iff.mpr hflag
  have hstrongest : Slam.EmitsOn .little data ⟨firstBlock, i, .strongest⟩ ↔
      Measured data ⟨firstBlock, i, .strongest⟩ := by
    rw [Slam.EmitsOn, Slam.Present, and_iff_right hvalid]
    exact and_iff_left fun hlast => by cases hlast
  have hlast : Slam.EmitsOn .little data ⟨firstBlock, i, .last⟩ ↔ Measured data ⟨firstBlock, i, .last⟩ ∧
      distance data ⟨firstBlock, i, .last⟩ ≠ distance data ⟨firstBlock, i, .strongest⟩ := by
    rw [Slam.EmitsOn, Slam.Present, and_iff_right hvalid]
    exact and_congr_right' ⟨fun h => h rfl, fun h _ => h⟩
  rw [Slam.pointsOf_eq, chosen]
  by_cases h1 : Measured data ⟨firstBlock, i, .strongest⟩
  · rw [if_pos (hstrongest.mpr h1), if_pos h1, List.singleton_append, List.head?_cons, Option.map_some]
  · rw [if_neg fun h => h1 (hstrongest.mp h), if_neg h1, List.nil_append]
    by_cases h2 : Measured data ⟨firstBlock, i, .last⟩
    · -- The strongest return is missing, so the last one differs from it.
      have hne : distance data ⟨firstBlock, i, .last⟩ ≠ distance data ⟨firstBlock, i, .strongest⟩ := fun he => by
        rw [Measured, he] at h2
        exact h1 h2
      rw [if_pos (hlast.mpr ⟨h2, hne⟩), if_pos h2, List.head?_cons, Option.map_some]
    · rw [if_neg fun h => h2 (hlast.mp h).1, if_neg h2, List.head?_nil, Option.map_none]

theorem pointsOf_of_flag_ne (hflag : flag data firstBlock ≠ dataFlag) :
    Slam.pointsOf .little data firstBlock i = [] := by
  by_contra hne
  exact hflag (Slam.valid_iff.mp (Slam.pointsOf_ne_nil_iff.mp hne).1)

/-- The point printed for measurement `i`, if any. -/
def shown (data : Memory) (i : Fin 16) : Option PointLine :=
  ((Slam.pointsOf .little data firstBlock i).head?.filter fun p => p.rssi > 0).map (ofPoint data i)

theorem filterMap_measured (hflag : flag data firstBlock = dataFlag) :
    (measured data i).filterMap Line.point? = (shown data i).toList := by
  have hraw : (rawLines data i).filterMap Line.point? = [] := by
    rw [rawLines]
    split
    · rfl
    · rfl
  rw [measured, List.filterMap_append, hraw, List.nil_append, shown, head?_pointsOf hflag]
  cases hc : chosen data i with
  | none => rfl
  | some s =>
    have hrssi : (Slam.pointOn .little data s).rssi = rssi data s := rfl
    rw [Option.map_some, Option.filter_some, Option.filter_some, hrssi]
    split
    · rw [Option.map_some, Option.map_some, ofPoint_pointOn hc]
      rfl
    · rw [Option.map_none, Option.map_none]
      rfl

theorem filterMap_blockLines (floats : FloatFormat) (data : Memory) :
    (blockLines floats data).filterMap Line.point? =
    if azimuth data firstBlock = 0xFFFF then [] else (List.finRange 16).filterMap (shown data) := by
  by_cases hvalid : flag data firstBlock = dataFlag ∧ azimuth data firstBlock ≠ 0xFFFF
  · obtain ⟨hflag, hazimuth⟩ := hvalid
    have hseparator : [Line.separator].filterMap Line.point? = [] := rfl
    have hfirst : Line.point? (Line.azimuth (blockAzimuth data) floats) = none := rfl
    rw [if_neg hazimuth, blockLines_of_valid hflag hazimuth, List.filterMap_cons_none hfirst, List.filterMap_append,
      hseparator, List.append_nil, List.filterMap_flatMap, List.filterMap_eq_flatMap_toList]
    exact List.flatMap_congr fun i _ => filterMap_measured hflag
  · have hleft : (blockLines floats data).filterMap Line.point? = [] := by
      rcases blockLines_of_invalid floats hvalid with he | he
      · rw [he]
        rfl
      · rw [he]
        rfl
    rw [hleft]
    split
    · rfl
    · next hazimuth =>
      refine (List.filterMap_eq_nil_iff.mpr fun i _ => ?_).symm
      rw [shown, pointsOf_of_flag_ne fun hflag => hvalid ⟨hflag, hazimuth⟩]
      rfl

theorem abs_sweep_lt (host : ByteOrder) (data : Memory) : |Slam.sweep host data firstBlock| < 300 := by
  have hnext : Slam.nextAzimuth host (.load host data) firstBlock = Slam.degrees data 1 ∨
      Slam.nextAzimuth host (.load host data) firstBlock = Slam.degrees data firstBlock := by
    rw [Slam.nextAzimuth_eq, dif_pos (by decide)]
    split
    · exact Or.inl rfl
    · exact Or.inr rfl
  have hbound : ∀ b, 0 ≤ Slam.degrees data b ∧ Slam.degrees data b < 656 := fun b => by
    have hlt : ((azimuth data b).toNat : ℚ) < 65536 := by exact_mod_cast (azimuth data b).toNat_lt
    exact ⟨by rw [Slam.degrees]; positivity, by rw [Slam.degrees]; linarith⟩
  obtain ⟨h0, h0'⟩ := hbound firstBlock
  obtain ⟨h1, h1'⟩ := hbound 1
  rw [Slam.sweep, Wrap.shortArc, abs_lt]
  rcases hnext with he | he
  · rw [he]
    split
    · exact ⟨by linarith, by linarith⟩
    · split
      · exact ⟨by linarith, by linarith⟩
      · exact ⟨by linarith, by linarith⟩
  · rw [he, sub_self, if_neg (by norm_num), if_neg (by norm_num)]
    exact ⟨by norm_num, by norm_num⟩

/-- The steps of 0.25 degrees are those of the parser exactly when the block sweeps 4 degrees. -/
theorem azimuth_congruent_iff {p : Slam.ParsedPoint} (hp : p ∈ Slam.pointsOf .little data firstBlock i) :
    (∃ n : ℤ, (ofPoint data i p).azimuth = p.azimuthDegrees + n • (360 : ℚ)) ↔
      i.val = 0 ∨ Slam.sweep .little data firstBlock = 4 := by
  have hp' := Slam.azimuth_of_mem_pointsOf hp
  have hturn := self_sub_toIcoDiv_zsmul Slam.turn_pos 0
    (Slam.degrees data firstBlock + Slam.sweep .little data firstBlock / 16 * i.val)
  rw [← hp'] at hturn
  generalize toIcoDiv Slam.turn_pos 0
    (Slam.degrees data firstBlock + Slam.sweep .little data firstBlock / 16 * i.val) = m at hturn
  have hshown : (ofPoint data i p).azimuth = Slam.degrees data firstBlock + 1 / 4 * i.val := rfl
  have hi : (i.val : ℚ) ≤ 15 := by exact_mod_cast Nat.le_of_lt_succ i.isLt
  have hi0 : (0 : ℚ) ≤ i.val := Nat.cast_nonneg _
  obtain ⟨hlow, hhigh⟩ := abs_lt.mp (abs_sweep_lt .little data)
  rw [hshown, ← hturn]
  constructor
  · rintro ⟨n, hn⟩
    rw [zsmul_eq_mul, zsmul_eq_mul] at hn
    have hstep : |1 / 4 - Slam.sweep .little data firstBlock / 16| ≤ 20 := abs_le.mpr ⟨by linarith, by linarith⟩
    have hsmall : |1 / 4 * (i.val : ℚ) - Slam.sweep .little data firstBlock / 16 * i.val| < 360 := by
      rw [← sub_mul, abs_mul, abs_of_nonneg hi0]
      calc |1 / 4 - Slam.sweep .little data firstBlock / 16| * (i.val : ℚ) ≤ 20 * 15 :=
            mul_le_mul hstep hi hi0 (by norm_num)
        _ < 360 := by norm_num
    have hsame : 1 / 4 * (i.val : ℚ) = Slam.sweep .little data firstBlock / 16 * i.val := by
      refine Wrap.eq_of_abs_sub_lt Slam.turn_pos hsmall ⟨n - m, ?_⟩
      rw [sub_zsmul, zsmul_eq_mul, zsmul_eq_mul]
      linarith
    have hprod : (4 - Slam.sweep .little data firstBlock) * (i.val : ℚ) = 0 := by linarith
    rcases mul_eq_zero.mp hprod with h4 | hz
    · exact Or.inr (by linarith)
    · exact Or.inl (by exact_mod_cast hz)
  · intro h
    have hsame : 1 / 4 * (i.val : ℚ) = Slam.sweep .little data firstBlock / 16 * i.val := by
      rcases h with hz | h4
      · rw [hz, Nat.cast_zero, mul_zero, mul_zero]
      · rw [h4]
        norm_num
    exact ⟨m, by rw [hsame]; abel⟩

/-- In exact arithmetic, and for a packet whose first azimuth is not the invalid one, the program prints for each
    measurement of block 0 the first point that the parser emits for it, if its signal strength is not 0. The azimuth
    printed is that of the parser up to whole turns exactly for measurement 0 and in a block that sweeps 4 degrees. -/
theorem points_eq_parsePacket (st : Reader) (data : Memory) :
    ((main.out st (.datagram (data.bytes 1206))).filterMap Line.point? =
      if azimuth data firstBlock = 0xFFFF then [] else (List.finRange 16).filterMap (shown data)) ∧
    (Slam.parsePacket .little data 1206 =
      (List.finRange 12).flatMap fun b => (List.finRange 16).flatMap fun i => Slam.pointsOf .little data b i) ∧
    ∀ i, ∀ p ∈ Slam.pointsOf .little data firstBlock i,
      ((∃ n : ℤ, (ofPoint data i p).azimuth = p.azimuthDegrees + n • (360 : ℚ)) ↔
        i.val = 0 ∨ Slam.sweep .little data firstBlock = 4) := by
  refine ⟨?_, Slam.parsePacket_pointsOf .little data, fun i p hp => azimuth_congruent_iff hp⟩
  have hbytes : blockLines st.floats (.ofList (data.bytes 1206)) = blockLines st.floats data := by
    refine readsBelow_blockLines st.floats fun n hn => ?_
    have hlt : n < 1206 := by omega
    simp [Memory.ofList, Memory.bytes, hlt]
  rw [out_eq, described, if_neg (by rw [Memory.length_bytes]; decide), hbytes, List.filterMap_cons_none rfl,
    filterMap_blockLines]

end Parser

end LidarInterface.Lakibeam
