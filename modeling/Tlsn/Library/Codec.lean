import Mathlib.Algebra.Group.Nat.Defs
import Mathlib.Data.List.Basic

/-!
Canonical binary formats. A codec refuses some values and gives every other one a
string that shows where it ends, so that codecs can be put one after the other.
Nothing is ever decoded: what is used of a format is that no two values share a
string.
-/

structure Codec (α : Type) where
  encode : α → Option (List UInt8)
  unique : ∀ {a b : α} {x y s t : List UInt8}, encode a = some x → encode b = some y →
    x ++ s = y ++ t → a = b ∧ s = t

namespace Codec

variable {α β : Type}

theorem injective (c : Codec α) {a b : α} {x : List UInt8} (ha : c.encode a = some x)
    (hb : c.encode b = some x) : a = b :=
  (c.unique ha hb (s := []) (t := []) rfl).1

/-- A value is written as another one which it determines. -/
def via (f : α → β) (hf : Function.Injective f) (c : Codec β) : Codec α where
  encode a := c.encode (f a)
  unique ha hb heq := (c.unique ha hb heq).imp_left fun h => hf h

def byte : Codec UInt8 where
  encode b := some [b]
  unique ha hb heq := by
    cases ha
    cases hb
    exact List.cons.inj heq

def fixed (n : Nat) : Codec (Vector UInt8 n) where
  encode v := some v.toList
  unique ha hb heq := by
    cases ha
    cases hb
    obtain ⟨hv, hs⟩ := List.append_inj heq (by simp)
    exact ⟨Vector.toList_inj.mp hv, hs⟩

theorem pair_eq_some {c : Codec α} {d : Codec β} {p : α × β} {z : List UInt8} :
    ((do
      let x ← c.encode p.1
      let y ← d.encode p.2
      return x ++ y) = some z) ↔
      ∃ x y, c.encode p.1 = some x ∧ d.encode p.2 = some y ∧ z = x ++ y := by
  simp only [Option.bind_eq_bind, Option.bind_eq_some_iff, Option.pure_def, Option.some.injEq]
  constructor
  · rintro ⟨x, hx, y, hy, rfl⟩
    exact ⟨x, y, hx, hy, rfl⟩
  · rintro ⟨x, y, hx, hy, rfl⟩
    exact ⟨x, hx, y, hy, rfl⟩

/-- One value after the other. -/
def pair (c : Codec α) (d : Codec β) : Codec (α × β) where
  encode p := do
    let x ← c.encode p.1
    let y ← d.encode p.2
    return x ++ y
  unique ha hb heq := by
    obtain ⟨x, y, hx, hy, rfl⟩ := pair_eq_some.mp ha
    obtain ⟨x', y', hx', hy', rfl⟩ := pair_eq_some.mp hb
    rw [List.append_assoc, List.append_assoc] at heq
    obtain ⟨h₁, hrest⟩ := c.unique hx hx' heq
    obtain ⟨h₂, hs⟩ := d.unique hy hy' hrest
    exact ⟨Prod.ext h₁ h₂, hs⟩

/-! ## Numbers -/

/-- The `w` lowest bytes of a number, lowest first. -/
def leBytes : Nat → Nat → List UInt8
  | 0, _ => []
  | w + 1, n => UInt8.ofNat n :: leBytes w (n / 256)

@[simp] theorem length_leBytes (w n : Nat) : (leBytes w n).length = w := by
  induction w generalizing n with
  | zero => rfl
  | succ w ih => simp [leBytes, ih]

theorem leBytes_inj {w n m : Nat} (hn : n < 256 ^ w) (hm : m < 256 ^ w)
    (h : leBytes w n = leBytes w m) : n = m := by
  induction w generalizing n m with
  | zero => omega
  | succ w ih =>
      obtain ⟨hlow, hrest⟩ := List.cons.inj h
      have hmod := congrArg UInt8.toNat hlow
      simp only [UInt8.toNat_ofNat'] at hmod
      have hdiv := ih (by rw [Nat.pow_succ] at hn; omega) (by rw [Nat.pow_succ] at hm; omega) hrest
      omega

/-- A number of `w` bytes. -/
def word (w : Nat) : Codec Nat where
  encode n := if n < 256 ^ w then some (leBytes w n) else none
  unique ha hb heq := by
    obtain ⟨hn, ⟨⟩⟩ := Option.ite_none_right_eq_some.mp ha
    obtain ⟨hm, ⟨⟩⟩ := Option.ite_none_right_eq_some.mp hb
    obtain ⟨hbytes, hs⟩ := List.append_inj heq (by simp)
    exact ⟨leBytes_inj hn hm hbytes, hs⟩

/-! ## Sequences -/

/-- Bytes after their number. -/
def bytes (len : Codec Nat) : Codec (List UInt8) where
  encode l := (len.encode l.length).map (· ++ l)
  unique ha hb heq := by
    obtain ⟨x, hx, rfl⟩ := Option.map_eq_some_iff.mp ha
    obtain ⟨y, hy, rfl⟩ := Option.map_eq_some_iff.mp hb
    rw [List.append_assoc, List.append_assoc] at heq
    obtain ⟨hlen, hrest⟩ := len.unique hx hy heq
    exact List.append_inj hrest hlen

def encodeAll (c : Codec α) : List α → Option (List UInt8)
  | [] => some []
  | a :: l => do
      let x ← c.encode a
      let y ← encodeAll c l
      return x ++ y

theorem encodeAll_unique (c : Codec α) {l m : List α} {x y s t : List UInt8}
    (hlen : l.length = m.length) (hl : c.encodeAll l = some x) (hm : c.encodeAll m = some y)
    (heq : x ++ s = y ++ t) : l = m ∧ s = t := by
  induction l generalizing m x y with
  | nil =>
      obtain rfl := List.length_eq_zero_iff.mp hlen.symm
      cases hl
      cases hm
      exact ⟨rfl, heq⟩
  | cons a l ih =>
      cases m with
      | nil => cases hlen
      | cons b m =>
          simp only [encodeAll, Option.bind_eq_bind, Option.bind_eq_some_iff, Option.pure_def,
            Option.some.injEq] at hl hm
          obtain ⟨xa, hxa, xl, hxl, rfl⟩ := hl
          obtain ⟨yb, hyb, ym, hym, rfl⟩ := hm
          rw [List.append_assoc, List.append_assoc] at heq
          obtain ⟨rfl, hrest⟩ := c.unique hxa hyb heq
          obtain ⟨rfl, hs⟩ := ih (Nat.succ.inj hlen) hxl hym hrest
          exact ⟨rfl, hs⟩

/-- Values after their number. -/
def list (len : Codec Nat) (c : Codec α) : Codec (List α) where
  encode l := do
    let n ← len.encode l.length
    let x ← c.encodeAll l
    return n ++ x
  unique ha hb heq := by
    simp only [Option.bind_eq_bind, Option.bind_eq_some_iff, Option.pure_def,
      Option.some.injEq] at ha hb
    obtain ⟨n, hn, x, hx, rfl⟩ := ha
    obtain ⟨m, hm, y, hy, rfl⟩ := hb
    rw [List.append_assoc, List.append_assoc] at heq
    obtain ⟨hlen, hrest⟩ := len.unique hn hm heq
    exact c.encodeAll_unique hlen hx hy hrest

end Codec
