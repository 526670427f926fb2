import Mathlib.Algebra.Order.Ring.Nat
import Mathlib.Data.List.Basic

/-!
Machine words and byte strings: lengths that wrap at the width of a machine
word, division rounded up, big-endian bytes, and the exclusive or of byte
strings, which stops with the shorter one.
-/

/-- Words have 64 bits. -/
def wordSize : Nat := 0x10000000000000000

theorem one_lt_wordSize : 1 < wordSize := by decide

theorem two_lt_wordSize : 2 < wordSize := by decide

theorem eight_lt_wordSize : 8 < wordSize := by decide

theorem sixteen_lt_wordSize : 16 < wordSize := by decide

theorem forty_eight_lt_wordSize : 48 < wordSize := by decide

/-- Arithmetic on lengths wraps. -/
def wrap (n : Nat) : Nat := n % wordSize

theorem wrap_of_lt {n : Nat} (h : n < wordSize) : wrap n = n := Nat.mod_eq_of_lt h

/-- `n - m` on machine words. -/
def wrapSub (n m : Nat) : Nat := wrap (n + wordSize - m)

theorem wrapSub_of_le {n m : Nat} (hm : m ≤ n) (hn : n < wordSize) : wrapSub n m = n - m := by
  rw [wrapSub, wrap, Nat.sub_add_comm hm, Nat.add_mod_right, Nat.mod_eq_of_lt (by omega)]

def divCeil (n d : Nat) : Nat := n / d + if n % d = 0 then 0 else 1

theorem divCeil_mul (n d : Nat) (hd : 0 < d) :
    n ≤ divCeil n d * d ∧ divCeil n d * d < n + d := by
  have hmod := Nat.mod_lt n hd
  have hdiv := Nat.div_add_mod n d
  rw [Nat.mul_comm] at hdiv
  unfold divCeil
  split
  · rw [Nat.add_zero]
    omega
  · rw [Nat.add_mul, Nat.one_mul]
    omega

theorem divCeil_mul_self (k d : Nat) (hd : 0 < d) : divCeil (k * d) d = k := by
  simp [divCeil, Nat.mul_div_cancel _ hd]

/-- The pieces of a list, all but the last of the given size. -/
def chunks {α : Type} (size : Nat) (l : List α) : List (List α) :=
  (List.range (divCeil l.length size)).map fun i => (l.drop (i * size)).take size

theorem length_chunk {α : Type} (size : Nat) (l : List α) (i : Nat) :
    ((l.drop (i * size)).take size).length = min size (l.length - i * size) := by
  rw [List.length_take, List.length_drop]

theorem length_le_of_mem_chunks {α : Type} {size : Nat} {l chunk : List α}
    (h : chunk ∈ chunks size l) : chunk.length ≤ size := by
  obtain ⟨i, _, rfl⟩ := List.mem_map.mp h
  rw [length_chunk]
  exact Nat.min_le_left _ _

theorem ne_nil_of_mem_chunks {α : Type} {size : Nat} (hsize : 0 < size) {l chunk : List α}
    (h : chunk ∈ chunks size l) : chunk ≠ [] := by
  obtain ⟨i, hi, rfl⟩ := List.mem_map.mp h
  have hlt : (i + 1) * size ≤ divCeil l.length size * size :=
    Nat.mul_le_mul_right size (List.mem_range.mp hi)
  have hceil := (divCeil_mul l.length size hsize).2
  rw [Nat.add_mul, Nat.one_mul] at hlt
  rw [Ne, ← List.length_eq_zero_iff, length_chunk]
  omega

theorem flatten_chunks {α : Type} {size : Nat} (hsize : 0 < size) (l : List α) :
    (chunks size l).flatten = l := by
  have hfront (n : Nat) : ((List.range n).map fun i => (l.drop (i * size)).take size).flatten =
      l.take (n * size) := by
    induction n with
    | zero => simp
    | succ n ih =>
        rw [List.range_succ, List.map_append, List.flatten_append, ih, List.map_singleton,
          List.flatten_singleton, Nat.succ_mul, List.take_add]
  rw [chunks, hfront, List.take_of_length_le (divCeil_mul l.length size hsize).1]

/-- The `w` lowest bytes of a number, highest first. -/
def beBytes (w n : Nat) : List UInt8 :=
  (List.range w).map fun i => UInt8.ofNat (n / 256 ^ (w - 1 - i))

@[simp] theorem length_beBytes (w n : Nat) : (beBytes w n).length = w := by simp [beBytes]

theorem beBytes_add (w v a b : Nat) (hb : b < 256 ^ v) :
    beBytes (w + v) (a * 256 ^ v + b) = beBytes w a ++ beBytes v b := by
  simp only [beBytes]
  rw [List.range_add, List.map_append, List.map_map]
  congr 1
  · apply List.map_congr_left
    intro i hi
    rw [List.mem_range] at hi
    rw [show w + v - 1 - i = v + (w - 1 - i) by omega, pow_add, ← Nat.div_div_eq_div_mul,
      Nat.mul_comm a, Nat.mul_add_div (Nat.pow_pos (by decide)), Nat.div_eq_of_lt hb, Nat.add_zero]
  · apply List.map_congr_left
    intro i hi
    rw [List.mem_range] at hi
    have hsplit : 256 ^ v = 256 ^ (v - 1 - i) * (256 * 256 ^ i) := by
      rw [← pow_succ', ← pow_add]
      congr 1
      omega
    rw [Function.comp_apply, show w + v - 1 - (w + i) = v - 1 - i by omega, hsplit,
      Nat.mul_left_comm, Nat.mul_add_div (Nat.pow_pos (by decide)), Nat.mul_left_comm a]
    apply UInt8.toNat_inj.mp
    simp only [UInt8.toNat_ofNat']
    omega

/-- Only the low bytes of a number show. -/
theorem beBytes_mod (w n : Nat) : beBytes w (n % 256 ^ w) = beBytes w n := by
  have h := beBytes_add 0 w (n / 256 ^ w) (n % 256 ^ w)
    (Nat.mod_lt _ (Nat.pow_pos (by decide)))
  rw [Nat.mul_comm, Nat.div_add_mod, Nat.zero_add] at h
  exact h.symm

def xorBytes (a b : List UInt8) : List UInt8 := List.zipWith (· ^^^ ·) a b

@[simp] theorem length_xorBytes (a b : List UInt8) :
    (xorBytes a b).length = min a.length b.length := by
  simp [xorBytes]

theorem xorBytes_comm (a b : List UInt8) : xorBytes a b = xorBytes b a :=
  List.zipWith_comm_of_comm UInt8.xor_comm

theorem xorBytes_assoc (a b c : List UInt8) :
    xorBytes (xorBytes a b) c = xorBytes a (xorBytes b c) := by
  induction a generalizing b c with
  | nil => simp [xorBytes]
  | cons x xs ih =>
      cases b with
      | nil => simp [xorBytes]
      | cons y ys =>
          cases c with
          | nil => simp [xorBytes]
          | cons z zs =>
              have htail := ih ys zs
              simp only [xorBytes, List.zipWith_cons_cons] at htail ⊢
              rw [htail, UInt8.xor_assoc]

/-- A string added twice cancels. -/
theorem xorBytes_cancel (a b : List UInt8) (h : a.length ≤ b.length) :
    xorBytes (xorBytes a b) b = a := by
  induction a generalizing b with
  | nil => simp [xorBytes]
  | cons x xs ih =>
      cases b with
      | nil => simp at h
      | cons y ys =>
          have htail := ih ys (by simpa using h)
          simp only [xorBytes, List.zipWith_cons_cons] at htail ⊢
          rw [htail, UInt8.xor_assoc, UInt8.xor_self, UInt8.xor_zero]

theorem xorBytes_cancel_middle (a b c : List UInt8) (h : a.length ≤ b.length) :
    xorBytes a (xorBytes b (xorBytes b c)) = xorBytes a c := by
  rw [← xorBytes_assoc a, ← xorBytes_assoc (xorBytes a b), xorBytes_cancel a b h]

theorem getElem?_xorBytes (a b : List UInt8) (i : Nat) (ha : i < a.length) (hb : i < b.length) :
    (xorBytes a b)[i]? = some (a[i] ^^^ b[i]) := by
  rw [xorBytes, List.getElem?_zipWith, List.getElem?_eq_getElem ha, List.getElem?_eq_getElem hb]

theorem getD_xorBytes {a b : List UInt8} (h : a.length = b.length) (i : Nat) :
    (xorBytes a b).getD i 0 = a.getD i 0 ^^^ b.getD i 0 := by
  simp only [List.getD_eq_getElem?_getD]
  by_cases hlt : i < a.length
  · have hlt' : i < b.length := by omega
    rw [getElem?_xorBytes a b i hlt hlt', List.getElem?_eq_getElem hlt,
      List.getElem?_eq_getElem hlt']
    rfl
  · have hlen : (xorBytes a b).length ≤ i := by
      rw [length_xorBytes]
      omega
    rw [List.getElem?_eq_none hlen, List.getElem?_eq_none (Nat.le_of_not_lt hlt),
      List.getElem?_eq_none (by omega)]
    rfl

/-- What is beyond the end of the first string does not matter. -/
theorem xorBytes_take (a b : List UInt8) {n : Nat} (h : a.length ≤ n) :
    xorBytes a (b.take n) = xorBytes a b := by
  apply List.ext_getElem?
  intro i
  simp only [xorBytes, List.getElem?_zipWith, List.getElem?_take]
  by_cases hi : i < n
  · rw [if_pos hi]
  · rw [if_neg hi, List.getElem?_eq_none (by omega)]
