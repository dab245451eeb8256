import LidarInterface.Foundation.Memory
import Mathlib.Logic.Function.Basic

/-! Which bytes of a memory a value is read from. A buffer that received `n` bytes holds behind them whatever it held
    before, so a value read from the buffer is determined by what was received when it is read from those bytes only;
    a value that always depends on its last byte is determined in no other case. -/

namespace Foundation.Memory
variable {α : Type*}

/-- The value is read from the first `k` bytes. -/
def ReadsBelow (k : Nat) (f : Memory → α) : Prop := ∀ ⦃m m' : Memory⦄, (∀ n < k, m n = m' n) → f m = f m'

/-! ### Values read -/

section ReadsBelow
variable {k n : Nat}

theorem readsBelow_be16 (h : n + 1 < k) : ReadsBelow k fun m => m.be16 n :=
  fun _ _ hm => be16_congr (hm n (by omega)) (hm (n + 1) h)

theorem readsBelow_load16 (host : ByteOrder) (h : n + 1 < k) : ReadsBelow k fun m => m.load16 host n := by
  intro m m' hm
  have h0 := hm n (by omega)
  have h1 := hm (n + 1) h
  cases host with
  | little => simp only [load16, h0, h1]
  | big => simp only [load16, h0, h1]

theorem readsBelow_bytes (h : n ≤ k) : ReadsBelow k fun m => m.bytes n :=
  fun _ _ hm => bytes_congr.mpr fun j hj => hm j (Nat.lt_of_lt_of_le hj h)

end ReadsBelow

/-! ### Received bytes -/

section Write
variable {bs : List UInt8} {n : Nat} (h : n ≤ bs.length)
include h

theorem write_apply_of_lt (m : Memory) {j : Nat} (hj : j < n) : m.write bs n j = ofList bs j := by
  have hb : j < bs.length := by omega
  rw [write, if_pos hj, ofList, List.getD_eq_getElem?_getD, List.getD_eq_getElem?_getD, List.getElem?_eq_getElem hb,
    Option.getD_some, Option.getD_some]

theorem ReadsBelow.write {k : Nat} {f : Memory → α} (hf : ReadsBelow k f) (hk : k ≤ n) (m : Memory) :
    f (m.write bs n) = f (ofList bs) :=
  hf fun _ hj => write_apply_of_lt h m (by omega)

/-- The first bytes received are the first bytes sent. -/
theorem bytes_write_of_le {k : Nat} (hk : k ≤ n) (m : Memory) : (m.write bs n).bytes k = bs.take k := by
  rw [(readsBelow_bytes (Nat.le_refl k)).write h hk]
  apply List.ext_getElem
  · rw [length_bytes, List.length_take, Nat.min_eq_left (Nat.le_trans hk h)]
  · intro i hi _
    have hb : i < bs.length := by
      rw [length_bytes] at hi
      omega
    simp [bytes, ofList, hb]

end Write

/-- The value is read from the first `k` bytes, and whatever they are, another last byte changes it. -/
structure Footprint (k : Nat) (f : Memory → α) : Prop where
  below : ReadsBelow k f
  last : ∀ m : Memory, ∃ v, f (Function.update m (k - 1) v) ≠ f m

/-- After `n` bytes were received, the value is the same for every buffer exactly when it is read from those bytes. -/
theorem Footprint.determined_iff {k : Nat} {f : Memory → α} (h : Footprint k f) (hk : 0 < k) {bs : List UInt8}
    {n : Nat} (hn : n ≤ bs.length) : (∀ m m' : Memory, f (m.write bs n) = f (m'.write bs n)) ↔ k ≤ n := by
  constructor
  · intro hsame
    by_contra hlt
    let zeros : Memory := fun _ => 0
    obtain ⟨v, hv⟩ := h.last (zeros.write bs n)
    have hwrite : Function.update (zeros.write bs n) (k - 1) v = write (Function.update zeros (k - 1) v) bs n := by
      funext j
      rcases eq_or_ne j (k - 1) with rfl | hj
      · rw [Function.update_self, write, if_neg (by omega), Function.update_self]
      · rw [Function.update_of_ne hj, write, write, Function.update_of_ne hj]
    rw [hwrite] at hv
    exact hv (hsame _ _)
  · intro hle m m'
    rw [h.below.write hn hle, h.below.write hn hle]

end Foundation.Memory
