import Mathlib.Data.List.Basic

/-! Decimal integers as C reads them. `atoi` skips blanks, takes one sign, and reads digits up to the first other
    character; without a digit it returns 0. A value that does not fit `int` is left undefined by C; it wraps here. An
    `int` is read back from its decimal digits, whatever follows them. -/

namespace Foundation.Decimal

/-- `isspace` in the C locale. -/
def isSpace (c : Char) : Bool := c == ' ' || (9 ≤ c.toNat && c.toNat ≤ 13)

def addDigit (n : Nat) (c : Char) : Nat := 10 * n + (c.toNat - 48)

def readDigits (cs : List Char) : Nat := (cs.takeWhile Char.isDigit).foldl addDigit 0

def readInt (cs : List Char) : Int :=
  match cs.dropWhile isSpace with
  | '-' :: cs => -readDigits cs
  | '+' :: cs => readDigits cs
  | cs => readDigits cs

def atoi (cs : List Char) : Int32 := .ofInt (readInt cs)

def write (z : Int) : List Char := if z < 0 then '-' :: Nat.toDigits 10 z.natAbs else Nat.toDigits 10 z.natAbs

theorem foldl_toDigits (n : Nat) : (Nat.toDigits 10 n).foldl addDigit 0 = n := by
  induction n using Nat.strongRecOn with
  | ind n ih =>
    rcases Nat.lt_or_ge n 10 with h | h
    · rw [Nat.toDigits_of_lt_base h, List.foldl_cons, List.foldl_nil, addDigit,
        Nat.toNat_digitChar_sub_48_of_lt_ten h, Nat.mul_zero, Nat.zero_add]
    · -- The last digit is appended to the digits of the tenth.
      have hlast : n % 10 < 10 := Nat.mod_lt n (by decide)
      have hsplit : Nat.toDigits 10 n = Nat.toDigits 10 (n / 10) ++ Nat.toDigits 10 (n % 10) := by
        rw [Nat.toDigits_append_toDigits (by decide) (by omega) hlast, Nat.div_add_mod]
      rw [hsplit, Nat.toDigits_of_lt_base hlast, List.foldl_append, ih _ (by omega), List.foldl_cons, List.foldl_nil,
        addDigit, Nat.toNat_digitChar_sub_48_of_lt_ten hlast, Nat.div_add_mod]

theorem isDigit_of_mem {n : Nat} {c : Char} (h : c ∈ Nat.toDigits 10 n) : c.isDigit = true :=
  Nat.isDigit_of_mem_toDigits (by decide) (by decide) h

theorem readDigits_toDigits (n : Nat) {rest : List Char} (h : ∀ c ∈ rest.head?, c.isDigit = false) :
    readDigits (Nat.toDigits 10 n ++ rest) = n := by
  have hrest : rest.takeWhile Char.isDigit = [] := by
    cases rest with
    | nil => rfl
    | cons c rest => exact List.takeWhile_cons_of_neg (by simp [h c rfl])
  rw [readDigits, List.takeWhile_append_of_pos fun c hc => isDigit_of_mem hc, hrest, List.append_nil, foldl_toDigits]

theorem readInt_of_digit {c : Char} {cs : List Char} (h : c.isDigit = true) :
    readInt (c :: cs) = readDigits (c :: cs) := by
  have hlow : 48 ≤ c.toNat := (Char.isDigit_iff_toNat.mp h).1
  have hspace : isSpace c = false := by
    have hblank : c ≠ ' ' := by
      rintro rfl
      exact absurd h (by decide)
    simp only [isSpace, beq_eq_false_iff_ne.mpr hblank, Bool.false_or, Bool.and_eq_false_iff, decide_eq_false_iff_not]
    omega
  rw [readInt, List.dropWhile_cons_of_neg (by simp [hspace])]
  split
  · next he => exact absurd h (by rw [(List.cons.inj he).1]; decide)
  · next he => exact absurd h (by rw [(List.cons.inj he).1]; decide)
  · rfl

/-- An integer is read back from its decimal digits, after any blanks and before anything that is no digit. -/
theorem readInt_write (z : Int) {blanks rest : List Char} (hblanks : ∀ c ∈ blanks, isSpace c = true)
    (hrest : ∀ c ∈ rest.head?, c.isDigit = false) : readInt (blanks ++ write z ++ rest) = z := by
  have hskip : readInt (blanks ++ write z ++ rest) = readInt (write z ++ rest) := by
    rw [readInt, readInt, List.append_assoc, List.dropWhile_append_of_pos hblanks]
  rw [hskip, write]
  by_cases hz : z < 0
  · rw [if_pos hz, List.cons_append]
    have hneg : readInt ('-' :: (Nat.toDigits 10 z.natAbs ++ rest)) = -readDigits (Nat.toDigits 10 z.natAbs ++ rest) := rfl
    rw [hneg, readDigits_toDigits _ hrest]
    omega
  · rw [if_neg hz]
    obtain ⟨c, cs, hcs⟩ := List.exists_cons_of_ne_nil (Nat.toDigits_ne_nil (n := z.natAbs) (b := 10))
    have hdigit : c.isDigit = true := isDigit_of_mem (n := z.natAbs) (hcs ▸ List.mem_cons_self)
    rw [hcs, List.cons_append, readInt_of_digit hdigit, ← List.cons_append, ← hcs, readDigits_toDigits _ hrest]
    omega

theorem atoi_write (z : Int32) {blanks rest : List Char} (hblanks : ∀ c ∈ blanks, isSpace c = true)
    (hrest : ∀ c ∈ rest.head?, c.isDigit = false) : atoi (blanks ++ write z.toInt ++ rest) = z := by
  rw [atoi, readInt_write _ hblanks hrest, Int32.ofInt_toInt]

end Foundation.Decimal
