import Mathlib.Data.List.Basic
import Mathlib.Data.List.Induction

/-! Programs that loop over their inputs: each input changes the state and writes some output. The log of a run is
    all that it writes. Two programs whose states stay related and which write the same from related states have the
    same log, so the log of a program is found by relating it to a simpler one. -/

namespace Foundation

structure Loop (σ ι ο : Type*) where
  step : σ → ι → σ
  out : σ → ι → List ο

namespace Loop
variable {σ τ ι ο α : Type*}

section Run
variable (P : Loop σ ι ο)

def state (s : σ) (is : List ι) : σ := is.foldl P.step s

def log (s : σ) : List ι → List ο
  | [] => []
  | i :: is => P.out s i ++ log (P.step s i) is

theorem state_cons (s : σ) (i : ι) (is : List ι) : P.state s (i :: is) = P.state (P.step s i) is := rfl

theorem state_append (s : σ) (is js : List ι) : P.state s (is ++ js) = P.state (P.state s is) js := List.foldl_append

theorem log_append (s : σ) (is js : List ι) : P.log s (is ++ js) = P.log s is ++ P.log (P.state s is) js := by
  induction is generalizing s with
  | nil => rfl
  | cons i is ih => rw [List.cons_append, log, ih, log, List.append_assoc, state_cons]

/-- What holds at the start and is kept by every step holds after every run. -/
theorem state_invariant {I : σ → Prop} (hstep : ∀ s i, I s → I (P.step s i)) {s : σ} (hs : I s) (is : List ι) :
    I (P.state s is) := by
  induction is generalizing s with
  | nil => exact hs
  | cons i is ih => exact ih (hstep s i hs)

/-- What is written in a run is written for one of its inputs, in the state that the inputs before it lead to. -/
theorem mem_log {s : σ} {is : List ι} {o : ο} :
    o ∈ P.log s is ↔ ∃ before i after, is = before ++ i :: after ∧ o ∈ P.out (P.state s before) i := by
  constructor
  · intro h
    induction is generalizing s with
    | nil => cases h
    | cons i is ih =>
      rcases List.mem_append.mp h with ho | ho
      · exact ⟨[], i, is, rfl, ho⟩
      · obtain ⟨before, j, after, rfl, hj⟩ := ih ho
        exact ⟨i :: before, j, after, rfl, hj⟩
  · rintro ⟨before, i, after, rfl, ho⟩
    rw [log_append]
    exact List.mem_append_right _ (List.mem_append_left _ ho)

/-- Each input is written for in the state that the inputs before it lead to. -/
theorem log_eq_zipIdx (s : σ) (is : List ι) :
    P.log s is = is.zipIdx.flatMap fun a => P.out (P.state s (is.take a.2)) a.1 := by
  induction is generalizing s with
  | nil => rfl
  | cons i is ih =>
    rw [log, ih, List.zipIdx_cons, List.flatMap_cons, List.zipIdx_succ, List.flatMap_map]
    rfl

/-- A program whose output for an input is the same in every state it can reach. -/
theorem log_of_invariant {I : σ → Prop} {f : ι → List ο} (hstep : ∀ s i, I s → I (P.step s i))
    (hout : ∀ s i, I s → P.out s i = f i) {s : σ} (hs : I s) (is : List ι) : P.log s is = is.flatMap f := by
  induction is generalizing s with
  | nil => rfl
  | cons i is ih => rw [log, hout s i hs, ih (hstep s i hs), List.flatMap_cons]

end Run

/-! ### Simulation -/

/-- From related states both programs write the same, and reach related states. -/
structure Simulates (P : Loop σ ι ο) (Q : Loop τ ι ο) (R : σ → τ → Prop) : Prop where
  step : ∀ {s t} i, R s t → R (P.step s i) (Q.step t i)
  out : ∀ {s t} i, R s t → P.out s i = Q.out t i

namespace Simulates
variable {P : Loop σ ι ο} {Q : Loop τ ι ο} {R : σ → τ → Prop} (h : Simulates P Q R)
include h

theorem log {s : σ} {t : τ} (hst : R s t) (is : List ι) : P.log s is = Q.log t is := by
  induction is generalizing s t with
  | nil => rfl
  | cons i is ih => rw [Loop.log, Loop.log, h.out i hst, ih (h.step i hst)]

end Simulates

/-! ### A part of the output -/

/-- The program of which only what `p` selects is read. -/
def project {ο' : Type*} (P : Loop σ ι ο) (p : ο → Option ο') : Loop σ ι ο' where
  step := P.step
  out s i := (P.out s i).filterMap p

theorem log_project {ο' : Type*} (P : Loop σ ι ο) (p : ο → Option ο') (s : σ) (is : List ι) :
    (P.project p).log s is = (P.log s is).filterMap p := by
  induction is generalizing s with
  | nil => rfl
  | cons i is ih =>
    rw [log, log, List.filterMap_append, ← ih]
    rfl

/-! ### Numbering -/

section Counting
variable (accept : ι → Option α)

/-- The program that remembers only how many inputs it accepted. -/
def numbering (f : Nat → ι → List ο) : Loop Nat ι ο where
  step n i := n + (accept i).toList.length
  out := f

theorem state_numbering (f : Nat → ι → List ο) (n : Nat) (is : List ι) :
    (numbering accept f).state n is = n + (is.filterMap accept).length := by
  induction is generalizing n with
  | nil => rfl
  | cons i is ih =>
    have hstep : (numbering accept f).step n i = n + (accept i).toList.length := rfl
    rw [state_cons, ih, hstep, Nat.add_assoc]
    cases h : accept i with
    | none => rw [List.filterMap_cons_none h, Option.toList_none, List.length_nil, Nat.zero_add]
    | some a => rw [List.filterMap_cons_some h, List.length_cons, Option.toList_some, List.length_singleton, Nat.add_comm 1]

theorem log_numbering (f : Nat → ι → List ο) (n : Nat) (is : List ι) : (numbering accept f).log n is =
    is.zipIdx.flatMap fun a => f (n + ((is.take a.2).filterMap accept).length) a.1 := by
  rw [log_eq_zipIdx]
  refine List.flatMap_congr fun a _ => ?_
  rw [state_numbering]
  rfl

variable (f : Nat → α → List ο)

/-- It writes for the accepted inputs only. -/
def counting : Loop Nat ι ο := numbering accept fun n i => (accept i).toList.flatMap (f n)

theorem step_counting (n : Nat) (i : ι) : (counting accept f).step n i = n + (accept i).toList.length := rfl

theorem out_counting (n : Nat) (i : ι) : (counting accept f).out n i = (accept i).toList.flatMap (f n) := rfl

theorem log_counting (n : Nat) (is : List ι) :
    (counting accept f).log n is = ((is.filterMap accept).zipIdx n).flatMap fun a => f a.2 a.1 := by
  induction is generalizing n with
  | nil => rfl
  | cons i is ih =>
    rw [log, ih, step_counting, out_counting]
    cases h : accept i with
    | none =>
      rw [List.filterMap_cons_none h, Option.toList_none, List.flatMap_nil, List.nil_append, List.length_nil,
        Nat.add_zero]
    | some a =>
      rw [List.filterMap_cons_some h, Option.toList_some, List.flatMap_singleton, List.zipIdx_cons, List.flatMap_cons,
        List.length_singleton]

end Counting

/-- What is written for the first `k` numbers only. -/
theorem flatMap_zipIdx_lt (g : α → List ο) (l : List α) (n k : Nat) :
    (l.zipIdx n).flatMap (fun a => if a.2 < n + k then g a.1 else []) = (l.take k).flatMap g := by
  induction l generalizing n k with
  | nil => rw [List.take_nil]; rfl
  | cons a l ih =>
    cases k with
    | zero =>
      rw [List.take_zero, List.flatMap_nil]
      refine List.flatMap_eq_nil_iff.mpr fun b hb => if_neg ?_
      have hle := (List.mem_zipIdx hb).1
      omega
    | succ k =>
      rw [List.zipIdx_cons, List.flatMap_cons, if_pos (by omega), List.take_succ_cons, List.flatMap_cons, ← ih (n + 1) k]
      refine congrArg (g a ++ ·) (List.flatMap_congr fun b _ => ?_)
      rw [show n + 1 + k = n + (k + 1) by omega]

/-! ### Programs that end at the first failure -/

section FailStop
variable {ε : Type*} (f : ι → Except ε ο)

/-- What is written before the first failure, and the failure. -/
def failStop : List ι → List ο × Option ε
  | [] => ([], none)
  | i :: is =>
    match f i with
    | .ok o => ((failStop is).map (o :: ·) id)
    | .error e => ([], some e)

/-- When a test tells which inputs fail, all inputs before the first failing one are written, and none after it. -/
theorem failStop_eq {p : ι → Bool} {g : ι → ο} {e : ε} (h : ∀ i, f i = if p i then .ok (g i) else .error e)
    (is : List ι) : failStop f is = ((is.takeWhile p).map g, if is.all p then none else some e) := by
  induction is with
  | nil => rfl
  | cons i is ih =>
    rw [failStop, h i, List.all_cons]
    cases hi : p i with
    | true =>
      rw [if_pos rfl, List.takeWhile_cons_of_pos hi, List.map_cons, Bool.true_and]
      exact congrArg (Prod.map (g i :: ·) id) ih
    | false =>
      rw [if_neg Bool.false_ne_true, List.takeWhile_cons_of_neg (by simp [hi]), Bool.false_and]
      rfl

end FailStop

end Loop
end Foundation
