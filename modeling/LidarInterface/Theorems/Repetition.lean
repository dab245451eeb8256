import LidarInterface.Theorems.Acceptance

/-! Scenes and recordings. A run over a scene whose samples agree in every bin filters nothing and stays within the
    scene's bands. Playing a recording several times keeps the medians of every bin and never filters a bin that was
    kept. The bands leave room for what the `float` of a machine rounds. -/

namespace LidarInterface.Reader2
open Foundation Arithmetic

/-! ### Repeated bins -/

section Repeat
variable {k : Nat} {samples : List LidarPoint} (hk : 0 < k)
include hk

theorem mem_repeat {s : LidarPoint} : s ∈ (List.replicate k samples).flatten ↔ s ∈ samples := by
  rw [List.mem_flatten]
  constructor
  · rintro ⟨l, hl, hs⟩
    rwa [List.eq_of_mem_replicate hl] at hs
  · exact fun hs => ⟨samples, List.mem_replicate.mpr ⟨hk.ne', rfl⟩, hs⟩

theorem length_le_repeat : samples.length ≤ (List.replicate k samples).flatten.length := by
  rw [List.length_flatten, List.map_replicate, List.sum_replicate_nat]
  exact Nat.le_mul_of_pos_left _ hk

theorem medians_repeat (h : samples ≠ []) (h' : (List.replicate k samples).flatten ≠ []) :
    medianDistance (List.replicate k samples).flatten h' = medianDistance samples h ∧
    medianRssi (List.replicate k samples).flatten h' = medianRssi samples h := by
  have hmap : ∀ f : LidarPoint → ℚ, (List.replicate k samples).flatten.map f =
      (List.replicate k (samples.map f)).flatten := fun f => by rw [List.map_flatten, List.map_replicate]
  simp only [medianDistance, medianRssi, hmap]
  exact ⟨Select.median_flatten_replicate hk _ _, Select.median_flatten_replicate hk _ _⟩

end Repeat

theorem flatMap_repeat {α β : Type} {k : Nat} (f : α → List β) (l : List α) :
    (List.replicate k l).flatten.flatMap f = (List.replicate k (l.flatMap f)).flatten := by
  induction k with
  | zero => rfl
  | succ k ih =>
    rw [List.replicate_succ, List.flatten_cons, List.flatMap_append, ih, List.replicate_succ, List.flatten_cons]

section Rounded
variable [Arithmetic]

/-! ### Bins in a band -/

/-- Of three samples or more that agree within half of the nearest and are not weak, the bin is kept. -/
theorem isSome_keep_of_band {samples : List LidarPoint} {L H : ℚ} (hlen : 3 ≤ samples.length)
    (hfloat : ∀ s ∈ samples, float s.distance = s.distance) (hL : 0 < L) (hspread : 2 * H ≤ 3 * L)
    (hband : ∀ s ∈ samples, L ≤ s.distance ∧ s.distance ≤ H) (hstrong : ∀ s ∈ samples, 20 < s.rssi) :
    (keep samples).isSome = true := by
  have h := ne_nil_of_three hlen
  obtain ⟨m, hm, hmedian⟩ := List.mem_map.mp (Select.median_mem (samples.map (·.distance)) (by simpa using h))
  obtain ⟨s, hs, hrssi⟩ :=
    List.mem_map.mp (Select.median_mem (samples.map fun s => (s.rssi.toNat : ℚ)) (by simpa using h))
  have hmiddle : m.distance = medianDistance samples h := hmedian
  have hd : L ≤ medianDistance samples h ∧ medianDistance samples h ≤ H := hmiddle ▸ hband m hm
  have hdfloat : float (medianDistance samples h) = medianDistance samples h := hmiddle ▸ hfloat m hm
  have hr : (s.rssi.toNat : ℚ) = medianRssi samples h := hrssi
  have hs20 : (20 : ℚ) < s.rssi.toNat := by exact_mod_cast UInt8.lt_iff_toNat_lt.mp (hstrong s hs)
  have hrfloat : float (s.rssi.toNat : ℚ) = s.rssi.toNat := lawful_float.natCast _ (by have := s.rssi.toNat_lt; omega)
  have hone : float (1 : ℚ) = 1 := by exact_mod_cast lawful_float.natCast 1 (by norm_num)
  have hpos : 0 < medianDistance samples h := hL.trans_le hd.1
  -- A sample with the median signal strength passes the filters.
  have hdev : |float (s.distance - medianDistance samples h)| ≤ medianDistance samples h / 2 := by
    obtain ⟨hlow, hhigh⟩ := hband s hs
    exact lawful_float.abs_le_of_abs_le (lawful_float.half_self hdfloat) (abs_le.mpr ⟨by linarith, by linarith⟩)
  have hratio : |float (s.distance - medianDistance samples h)| / medianDistance samples h ≤ 1 / 2 := by
    rw [div_le_iff₀ hpos]
    linarith
  have hfactor : float (7 / 10) ≤ 1 := lawful_float.le_of_le hone (by norm_num)
  have hproduct : (s.rssi.toNat : ℚ) * float (7 / 10) ≤ s.rssi.toNat :=
    mul_le_of_le_one_right (by linarith) hfactor
  have hpass : Passes (medianDistance samples h) (medianRssi samples h) s :=
    ⟨lawful_float.le_of_le (lawful_float.half_self hone) hratio, hr ▸ lawful_float.le_of_le hrfloat hproduct⟩
  have hfiltered : s ∈ filteredSamples samples h := mem_filteredSamples.mpr ⟨hs, hpass⟩
  rw [keep_of_three hlen h, isSome_selectMulti]
  exact ⟨List.ne_nil_of_mem hfiltered, by linarith⟩

/-- The mean of two distances, as it is computed. -/
theorem mean_mem {d d' : ℚ} (hd : 0 < d) (hd' : 0 < d') :
    98 / 100 * ((d + d') / 2) ≤ float (float (d + d') / 2) ∧ float (float (d + d') / 2) ≤ 103 / 100 * ((d + d') / 2) := by
  obtain ⟨hlow, hhigh⟩ := lawful_float.percent (by linarith : 0 ≤ d + d')
  obtain ⟨hlow', hhigh'⟩ := lawful_float.percent (by linarith : 0 ≤ float (d + d') / 2)
  exact ⟨by linarith, by linarith⟩

theorem difference_mem (d d' : ℚ) :
    99 / 100 * |d - d'| ≤ |float (d - d')| ∧ |float (d - d')| ≤ 101 / 100 * |d - d'| := by
  wlog h : d' ≤ d generalizing d d'
  · rw [abs_sub_comm, lawful_float.abs_sub_comm]
    exact this d' d (le_of_not_ge h)
  · rw [abs_of_nonneg (sub_nonneg.mpr h), abs_of_nonneg (lawful_float.nonneg (sub_nonneg.mpr h))]
    exact lawful_float.percent (sub_nonneg.mpr h)

/-- Two distances that agree within three tenths of the nearer are found consistent. -/
theorem consistent_of_band {L d d' : ℚ} (hL : 0 < L) (hd : L ≤ d ∧ d ≤ 13 / 10 * L) (hd' : L ≤ d' ∧ d' ≤ 13 / 10 * L) :
    float (|float (d - d')| / float (float (d + d') / 2)) ≤ float (3 / 10) := by
  have hmean := (mean_mem (by linarith [hd.1] : 0 < d) (by linarith [hd'.1] : 0 < d')).1
  have hdiff := (difference_mem d d').2
  have hband : |d - d'| ≤ 3 / 10 * L := abs_le.mpr ⟨by linarith [hd.1, hd'.2], by linarith [hd.2, hd'.1]⟩
  have hsum : 2 * L + |d - d'| ≤ d + d' := by
    rcases abs_cases (d - d') with ⟨he, -⟩ | ⟨he, -⟩ <;> rw [he]
    · linarith [hd'.1]
    · linarith [hd.1]
  refine lawful_float.mono ((div_le_iff₀ (by linarith [hd.1, hd'.1])).mpr ?_)
  linarith

/-- Two distances that are found consistent agree within half of the nearer. -/
theorem near_of_consistent {d d' : ℚ} (hd : 0 < d) (hd' : 0 < d')
    (h : float (|float (d - d')| / float (float (d + d') / 2)) ≤ float (3 / 10)) :
    2 * max d d' ≤ 3 * min d d' := by
  have hmean := mean_mem hd hd'
  have hdiff := (difference_mem d d').1
  have hpos : 0 < float (float (d + d') / 2) := by linarith [hmean.1]
  have hbound : float (3 / 10) ≤ 31 / 100 := by linarith [(lawful_float.percent (by norm_num : (0 : ℚ) ≤ 3 / 10)).2]
  have hratio := (lawful_float.percent (div_nonneg (abs_nonneg (float (d - d'))) hpos.le)).1
  have hclose : |float (d - d')| ≤ 32 / 100 * float (float (d + d') / 2) := by
    rw [← div_le_iff₀ hpos]
    linarith
  have hnear : |d - d'| ≤ 34 / 100 * ((d + d') / 2) := by linarith [hmean.2]
  rcases le_total d d' with hle | hle
  · rw [min_eq_left hle, max_eq_right hle]
    rw [abs_sub_comm, abs_of_nonneg (sub_nonneg.mpr hle)] at hnear
    linarith
  · rw [min_eq_right hle, max_eq_left hle]
    rw [abs_of_nonneg (sub_nonneg.mpr hle)] at hnear
    linarith

/-- The samples of a bin agree within three tenths of the nearest, and each is strong enough to be kept alone. -/
structure Agree (L : ℚ) (samples : List LidarPoint) : Prop where
  pos : 0 < L
  band : ∀ s ∈ samples, L ≤ s.distance ∧ s.distance ≤ 13 / 10 * L
  strong : ∀ s ∈ samples, 25 < s.rssi

theorem Agree.isSome_keep {L : ℚ} {samples : List LidarPoint} (h : Agree L samples)
    (hfloat : ∀ s ∈ samples, float s.distance = s.distance) (hne : samples ≠ []) : (keep samples).isSome = true := by
  have hstrong : ∀ s ∈ samples, 20 < s.rssi := fun s hs => UInt8.lt_trans (by decide) (h.strong s hs)
  have hpos := h.pos
  match samples, hne with
  | [s], _ => exact (isSome_keep_iff [s]).mpr (h.strong s List.mem_cons_self)
  | [s, s'], _ =>
    have hs := List.mem_cons_self (a := s) (l := [s'])
    have hs' := List.mem_cons_of_mem s (List.mem_cons_self (a := s') (l := []))
    exact (isSome_keep_iff [s, s']).mpr
      ⟨consistent_of_band hpos (h.band s hs) (h.band s' hs'), hstrong s hs, hstrong s' hs'⟩
  | _ :: _ :: _ :: _, _ => exact isSome_keep_of_band (by simp) hfloat hpos (by linarith) h.band hstrong

/-! ### Kept again -/

section Repeat
variable {k : Nat} {samples : List LidarPoint} (hk : 0 < k)
include hk

/-- Bins of three samples or more are decided as before. -/
theorem isSome_keep_repeat_of_three (hlen : 3 ≤ samples.length) :
    (keep (List.replicate k samples).flatten).isSome = (keep samples).isSome := by
  have h := ne_nil_of_three hlen
  have hlen' := hlen.trans (length_le_repeat hk)
  have h' := ne_nil_of_three hlen'
  obtain ⟨hd, hr⟩ := medians_repeat hk h h'
  have hfiltered : filteredSamples (List.replicate k samples).flatten h' ≠ [] ↔ filteredSamples samples h ≠ [] := by
    rw [← List.isEmpty_eq_false_iff, ← List.isEmpty_eq_false_iff, List.isEmpty_eq_false_iff_exists_mem,
      List.isEmpty_eq_false_iff_exists_mem]
    simp only [mem_filteredSamples, mem_repeat hk, hd, hr]
  rw [keep_of_three hlen h, keep_of_three hlen' h', Bool.eq_iff_iff, isSome_selectMulti, isSome_selectMulti, hfiltered,
    hr]

/-- A bin that is kept is kept when its samples come several times. -/
theorem isSome_keep_repeat (hpos : ∀ s ∈ samples, 0 < s.distance)
    (hfloat : ∀ s ∈ samples, float s.distance = s.distance) (hkeep : (keep samples).isSome = true) :
    (keep (List.replicate k samples).flatten).isSome = true := by
  have hfloat' : ∀ s ∈ (List.replicate k samples).flatten, float s.distance = s.distance :=
    fun s hs => hfloat s ((mem_repeat hk).mp hs)
  match samples, hkeep with
  | _ :: _ :: _ :: _, hkeep => rwa [isSome_keep_repeat_of_three hk (by simp)]
  | [s], hkeep =>
    have hs : 25 < s.rssi := (isSome_keep_iff [s]).mp hkeep
    have hagree : Agree s.distance (List.replicate k [s]).flatten :=
      { pos := hpos s List.mem_cons_self
        band := fun t ht => by
          obtain rfl := List.mem_singleton.mp ((mem_repeat hk).mp ht)
          exact ⟨le_rfl, by linarith [hpos t List.mem_cons_self]⟩
        strong := fun t ht => by
          obtain rfl := List.mem_singleton.mp ((mem_repeat hk).mp ht)
          exact hs }
    exact hagree.isSome_keep hfloat' (List.ne_nil_of_mem ((mem_repeat hk).mpr List.mem_cons_self))
  | [s, s'], hkeep =>
    obtain ⟨hdiff, hs, hs'⟩ := (isSome_keep_iff [s, s']).mp hkeep
    have hd := hpos s List.mem_cons_self
    have hd' := hpos s' (List.mem_cons_of_mem s List.mem_cons_self)
    rcases Nat.lt_or_ge k 2 with hone | htwo
    · obtain rfl : k = 1 := by omega
      exact hkeep
    · have hlen : 3 ≤ (List.replicate k [s, s']).flatten.length := by
        rw [List.length_flatten, List.map_replicate, List.sum_replicate_nat, List.length_cons, List.length_singleton]
        omega
      have hmem : ∀ t ∈ (List.replicate k [s, s']).flatten, t = s ∨ t = s' :=
        fun t ht => List.mem_pair.mp ((mem_repeat hk).mp ht)
      refine isSome_keep_of_band hlen hfloat' (lt_min hd hd') (near_of_consistent hd hd' hdiff) ?_ ?_
      · intro t ht
        rcases hmem t ht with rfl | rfl
        · exact ⟨min_le_left _ _, le_max_left _ _⟩
        · exact ⟨min_le_right _ _, le_max_right _ _⟩
      · intro t ht
        rcases hmem t ht with rfl | rfl
        · exact hs
        · exact hs'

end Repeat

/-! ### Runs -/

theorem float_distance_fiber {host : ByteOrder} {rs : List Recv} {b : Int} :
    ∀ s ∈ Groups.fiber angleBin (samples host rs) b, float s.distance = s.distance :=
  fun _ hs => float_distance (Groups.mem_fiber.mp hs).1

/-- A run over a scene, a band of distances for each bin within which the samples agree: no bin is filtered, and each is
    output once, at a distance in its band. Another run over the same scene outputs the bins that both have met at
    distances that differ by three tenths of the nearest at most. -/
theorem scene_stable {host host' : ByteOrder} {rs rs' : List Recv} {st st' : Collector} (h : Collects host rs st)
    (h' : Collects host' rs' st') {L : Int → ℚ}
    (hscene : ∀ b, Agree (L b) (Groups.fiber angleBin (samples host rs) b))
    (hscene' : ∀ b, Agree (L b) (Groups.fiber angleBin (samples host' rs') b)) :
    (select st.angleMap).filteredBins = 0 ∧ (select st.angleMap).uniquePoints.map angleBin = st.angleMap.keys ∧
    (∀ p ∈ (select st.angleMap).uniquePoints, L (angleBin p) ≤ p.distance ∧ p.distance ≤ 13 / 10 * L (angleBin p)) ∧
    ∀ p ∈ (select st.angleMap).uniquePoints, ∀ p' ∈ (select st'.angleMap).uniquePoints, angleBin p = angleBin p' →
      |p.distance - p'.distance| ≤ 3 / 10 * L (angleBin p) := by
  have hkept : ∀ b ∈ (Groups.group angleBin (samples host rs)).keys,
      (keep (Groups.fiber angleBin (samples host rs) b)).isSome = true := fun b hb =>
    (hscene b).isSome_keep float_distance_fiber
      (Groups.fiber_ne_nil.mpr (Groups.mem_group.mp (Std.TreeMap.mem_keys.mp hb)))
  have hband : ∀ {host : ByteOrder} {rs : List Recv} {st : Collector}, Collects host rs st →
      (∀ b, Agree (L b) (Groups.fiber angleBin (samples host rs) b)) → ∀ p ∈ (select st.angleMap).uniquePoints,
        L (angleBin p) ≤ p.distance ∧ p.distance ≤ 13 / 10 * L (angleBin p) := fun hrun hagree p hp => by
    rw [hrun.angleMap_eq] at hp
    exact (hagree (angleBin p)).band p (Groups.mem_fiber.mpr ⟨(mem_uniquePoints _ hp).1, rfl⟩)
  refine ⟨?_, ?_, hband h hscene, fun p hp p' hp' hbin => ?_⟩
  · rw [h.angleMap_eq, filteredBins_eq, List.countP_eq_zero]
    intro b hb
    rw [← Option.not_isSome, hkept b hb]
    exact Bool.false_ne_true
  · rw [h.angleMap_eq, map_angleBin_uniquePoints, List.filter_eq_self.mpr hkept]
  · obtain ⟨hlow, hhigh⟩ := hband h hscene p hp
    obtain ⟨hlow', hhigh'⟩ := hband h' hscene' p' hp'
    rw [← hbin] at hlow' hhigh'
    exact abs_le.mpr ⟨by linarith, by linarith⟩

section Replay
variable {k : Nat}

variable {host : ByteOrder} {rs rs' : List Recv} (hperm : (payloads rs').Perm (List.replicate k (payloads rs)).flatten)
include hperm

theorem samples_repeat : (samples host rs').Perm (List.replicate k (samples host rs)).flatten := by
  have hsamples := (hperm.flatMap_right (emitted host)).filter isSample
  rwa [flatMap_repeat, List.filter_flatten, List.map_replicate] at hsamples

theorem fiber_repeat (b : Int) : (Groups.fiber angleBin (samples host rs') b).Perm
    (List.replicate k (Groups.fiber angleBin (samples host rs) b)).flatten := by
  have hfiber : (Groups.fiber angleBin (samples host rs') b).Perm
      (Groups.fiber angleBin (List.replicate k (samples host rs)).flatten b) := Groups.fiber_perm (samples_repeat hperm)
  rwa [Groups.fiber, Groups.fiber, List.filter_flatten, List.map_replicate] at hfiber

end Replay

/-- A recording that arrives `k` times, in any order and framing: the bins are the same and have the same medians, with
    `k` times as many samples. A bin that was kept is kept again, so no more bins are filtered than before, and when
    every bin had three samples or more exactly the same bins are kept. -/
theorem replay {host : ByteOrder} {rs rs' : List Recv} {st st' : Collector} (h : Collects host rs st)
    (h' : Collects host rs' st') {k : Nat} (hk : 0 < k)
    (hperm : (payloads rs').Perm (List.replicate k (payloads rs)).flatten) :
    st'.angleMap.keys = st.angleMap.keys ∧ (select st'.angleMap).totalSamples = k * (select st.angleMap).totalSamples ∧
    (∀ b : Int, ∀ bin bin' : List LidarPoint, (b, bin) ∈ st.angleMap.toList → (b, bin') ∈ st'.angleMap.toList →
      ∀ hne hne', medianDistance bin' hne' = medianDistance bin hne ∧ medianRssi bin' hne' = medianRssi bin hne) ∧
    ((select st.angleMap).uniquePoints.map angleBin).Sublist ((select st'.angleMap).uniquePoints.map angleBin) ∧
    (select st'.angleMap).filteredBins ≤ (select st.angleMap).filteredBins ∧
    ((∀ bin ∈ st.angleMap.toList, 3 ≤ bin.2.length) →
      (select st'.angleMap).uniquePoints.map angleBin = (select st.angleMap).uniquePoints.map angleBin ∧
      (select st'.angleMap).filteredBins = (select st.angleMap).filteredBins) := by
  have hkeys : (Groups.group angleBin (samples host rs')).keys = (Groups.group angleBin (samples host rs)).keys :=
    Groups.keys_group_congr fun p => ((samples_repeat hperm).mem_iff).trans (mem_repeat hk)
  have hfiber := @fiber_repeat _ k host rs rs' hperm
  have hpos : ∀ b, ∀ s ∈ Groups.fiber angleBin (samples host rs) b, 0 < s.distance := fun b s hs =>
    positive_of_isSample (mem_samples (Groups.mem_fiber.mp hs).1).2.1
  have hkept : ∀ b, (keep (Groups.fiber angleBin (samples host rs) b)).isSome = true →
      (keep (Groups.fiber angleBin (samples host rs') b)).isSome = true := fun b hb => by
    rw [isSome_keep_perm (hfiber b)]
    exact isSome_keep_repeat hk (hpos b) float_distance_fiber hb
  rw [h.angleMap_eq, h'.angleMap_eq]
  simp only [map_angleBin_uniquePoints, filteredBins_eq, hkeys]
  refine ⟨trivial, ?_, ?_, List.monotone_filter_right _ hkept, ?_, fun hthree => ?_⟩
  · rw [select_group, select_group, (samples_repeat hperm).length_eq, List.length_flatten, List.map_replicate,
      List.sum_replicate_nat]
  · intro b bin bin' hbin hbin' hne hne'
    obtain ⟨rfl, -⟩ := Groups.mem_toList_group.mp hbin
    obtain ⟨rfl, -⟩ := Groups.mem_toList_group.mp hbin'
    have hflat : (List.replicate k (Groups.fiber angleBin (samples host rs) b)).flatten ≠ [] := fun hnil =>
      hne' ((hnil ▸ hfiber b).eq_nil)
    obtain ⟨hd, hr⟩ := medians_repeat hk hne hflat
    rw [medianDistance_perm (hfiber b) hne' hflat, medianRssi_perm (hfiber b) hne' hflat]
    exact ⟨hd, hr⟩
  · refine List.countP_mono_left fun b _ hb => ?_
    rw [← Option.not_isSome, Bool.not_eq_true'] at hb ⊢
    by_contra hsome
    rw [hkept b (Bool.eq_true_of_not_eq_false hsome)] at hb
    cases hb
  · have hsame : ∀ b ∈ (Groups.group angleBin (samples host rs)).keys,
        (keep (Groups.fiber angleBin (samples host rs') b)).isSome =
          (keep (Groups.fiber angleBin (samples host rs) b)).isSome := fun b hb => by
      have hne := Groups.fiber_ne_nil.mpr (Groups.mem_group.mp (Std.TreeMap.mem_keys.mp hb))
      rw [isSome_keep_perm (hfiber b)]
      exact isSome_keep_repeat_of_three hk (hthree _ (Groups.mem_toList_group.mpr ⟨rfl, hne⟩))
    refine ⟨List.filter_congr hsame, List.countP_congr fun b hb => ?_⟩
    rw [← Option.not_isSome, ← Option.not_isSome, hsame b hb]

end Rounded

section Ieee
open Ieee

/-- Samples at 1 m to 1.25 m: three in one bin, two in another and one in a third. -/
def steadyScene : List Return :=
  [.inBlock 0 1000 50, .inBlock 2 1100 60, .inBlock 0 1200 40, .inBlock 4 1250 30, .inBlock 2 1250 55,
    .inBlock 0 1100 45]

theorem agree_steadyScene {rs : List Recv} (hsamples : samples .little rs = steadyScene.map Return.sample ∨
    samples .little rs = steadyScene.reverse.map Return.sample) (b : Int) :
    Agree 1 (Groups.fiber angleBin (samples .little rs) b) := by
  have hscene : ∀ s ∈ steadyScene.map Return.sample, (1 ≤ s.distance ∧ s.distance ≤ 13 / 10 * 1) ∧ 25 < s.rssi := by
    decide +kernel
  have hmem : ∀ s ∈ Groups.fiber angleBin (samples .little rs) b, s ∈ steadyScene.map Return.sample := fun s hs => by
    have hs' := (Groups.mem_fiber.mp hs).1
    rcases hsamples with he | he <;> rw [he] at hs'
    · exact hs'
    · rwa [List.map_reverse, List.mem_reverse] at hs'
  exact ⟨zero_lt_one, fun s hs => (hscene s (hmem s hs)).1, fun s hs => (hscene s (hmem s hs)).2⟩

/-- The same scene in two orders. -/
theorem scene_stable_reverse :
    let st := collect .little (fun _ => 0) (returnDatagrams steadyScene)
    let st' := collect .little (fun _ => 0) (returnDatagrams steadyScene.reverse)
    (select st.angleMap).filteredBins = 0 ∧ st.angleMap.keys = [0, 16, 32] ∧
      ∀ p ∈ (select st.angleMap).uniquePoints, ∀ p' ∈ (select st'.angleMap).uniquePoints, angleBin p = angleBin p' →
        |p.distance - p'.distance| ≤ 3 / 10 * 1 := by
  intro st st'
  have hrun : Collects .little (returnDatagrams steadyScene) st := collects_collect .little _ (by decide)
  have hrun' : Collects .little (returnDatagrams steadyScene.reverse) st' := collects_collect .little _ (by decide)
  have hsamples := samples_of_payloads (payloads_returnDatagrams steadyScene) (by decide)
  have hsamples' := samples_of_payloads (payloads_returnDatagrams steadyScene.reverse) (by decide)
  obtain ⟨hfiltered, -, -, hnear⟩ := scene_stable hrun hrun' (L := fun _ => 1)
    (agree_steadyScene (Or.inl hsamples)) (agree_steadyScene (Or.inr hsamples'))
  refine ⟨hfiltered, ?_, hnear⟩
  rw [hrun.angleMap_eq, hsamples]
  decide +kernel

/-- Eight packets that arrive twice: the weak bin is filtered both times. -/
theorem replay_twice :
    let st := collect .little (fun _ => 0) (returnDatagrams scene)
    let st' := collect .little (fun _ => 0) (returnDatagrams (scene ++ scene))
    (select st.angleMap).uniquePoints.map angleBin = [0, 16, 32] ∧
      [0, 16, 32].Sublist ((select st'.angleMap).uniquePoints.map angleBin) ∧
      (select st'.angleMap).filteredBins ≤ (select st.angleMap).filteredBins := by
  intro st st'
  have hrun : Collects .little (returnDatagrams scene) st := collects_collect .little _ (by decide)
  have hrun' : Collects .little (returnDatagrams (scene ++ scene)) st' := collects_collect .little _ (by decide)
  have hperm : (payloads (returnDatagrams (scene ++ scene))).Perm
      (List.replicate 2 (payloads (returnDatagrams scene))).flatten := by
    rw [payloads_returnDatagrams, payloads_returnDatagrams, List.map_append]
    exact List.Perm.of_eq (by simp [List.replicate])
  obtain ⟨-, -, -, hkept, hfiltered, -⟩ := replay hrun hrun' Nat.zero_lt_two hperm
  have hbins : (select st.angleMap).uniquePoints.map angleBin = [0, 16, 32] := by
    rw [hrun.angleMap_eq, samples_of_payloads (payloads_returnDatagrams scene) (by decide)]
    decide +kernel
  exact ⟨hbins, hbins ▸ hkept, hfiltered⟩

end Ieee

end LidarInterface.Reader2
