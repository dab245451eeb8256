import Mathlib.Data.List.Basic
import Mathlib.Data.Nat.Init

/-! Bytes as text. A dump writes each byte as two hexadecimal digits and a blank, and breaks the line after every
    `width` bytes. Reading the digits of a dump back gives the bytes. -/

namespace Foundation.Hex

/-- `std::hex << std::setw(2) << std::setfill('0')`. -/
def hexByte (b : UInt8) : List Char := (Nat.toDigits 16 b.toNat).leftpad 2 '0'

def digit? (c : Char) : Option Nat :=
  if '0' ≤ c ∧ c ≤ '9' then some (c.toNat - '0'.toNat)
  else if 'a' ≤ c ∧ c ≤ 'f' then some (c.toNat - 'a'.toNat + 10)
  else none

/-- The byte at position `i` of a dump, with what follows it. -/
def cell (width i : Nat) (b : UInt8) : List Char :=
  hexByte b ++ [' '] ++ if (i + 1) % width = 0 then ['\n'] else []

def dump (width : Nat) (bs : List UInt8) : List Char := bs.zipIdx.flatMap fun b => cell width b.2 b.1

/-- The bytes that a dump spells; none if it is not one. -/
def read : List Char → Option (List UInt8)
  | [] => some []
  | '\n' :: cs => read cs
  | c :: d :: ' ' :: cs => do
    let high ← digit? c
    let low ← digit? d
    return .ofNat (16 * high + low) :: (← read cs)
  | _ => none

theorem hexByte_eq (b : UInt8) : hexByte b = [Nat.digitChar (b.toNat / 16), Nat.digitChar (b.toNat % 16)] := by
  have hall : ∀ n : Fin 256,
      (Nat.toDigits 16 n.val).leftpad 2 '0' = [Nat.digitChar (n.val / 16), Nat.digitChar (n.val % 16)] := by
    decide +kernel
  exact hall ⟨b.toNat, b.toNat_lt⟩

theorem digit?_digitChar {n : Nat} (h : n < 16) : digit? (Nat.digitChar n) = some n := by
  have hall : ∀ n : Fin 16, digit? (Nat.digitChar n.val) = some n.val := by decide
  exact hall ⟨n, h⟩

theorem digitChar_ne_newline {n : Nat} (h : n < 16) : Nat.digitChar n ≠ '\n' := by
  have hall : ∀ n : Fin 16, Nat.digitChar n.val ≠ '\n' := by decide
  exact hall ⟨n, h⟩

theorem read_hexByte (b : UInt8) (cs : List Char) : read (hexByte b ++ ' ' :: cs) = (read cs).map (b :: ·) := by
  have hb := b.toNat_lt
  have hhigh : b.toNat / 16 < 16 := by omega
  have hlow : b.toNat % 16 < 16 := by omega
  have hbyte : UInt8.ofNat (16 * (b.toNat / 16) + b.toNat % 16) = b := by
    rw [Nat.div_add_mod, UInt8.ofNat_toNat]
  rw [hexByte_eq, List.cons_append, List.cons_append, List.nil_append,
    read.eq_3 _ _ _ fun h => absurd h (digitChar_ne_newline hhigh)]
  simp only [digit?_digitChar hhigh, digit?_digitChar hlow, Option.bind_eq_bind, Option.bind_some, hbyte]
  cases read cs with
  | none => rfl
  | some bs => rfl

theorem read_cell (width i : Nat) (b : UInt8) (cs : List Char) :
    read (cell width i b ++ cs) = (read cs).map (b :: ·) := by
  rw [cell, List.append_assoc, List.append_assoc, List.singleton_append, read_hexByte]
  split
  · rfl
  · rfl

/-- A dump spells the bytes it was made of. -/
theorem read_dump (width : Nat) (bs : List UInt8) : read (dump width bs) = some bs := by
  have hfrom : ∀ n, read ((bs.zipIdx n).flatMap fun b => cell width b.2 b.1) = some bs := by
    induction bs with
    | nil => exact fun _ => rfl
    | cons b bs ih =>
      intro n
      rw [List.zipIdx_cons, List.flatMap_cons, read_cell, ih, Option.map_some]
  exact hfrom 0

end Foundation.Hex
