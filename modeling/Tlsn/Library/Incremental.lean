import Mathlib.Data.List.Basic

/-!
Parsers of a stream which arrives in pieces. A parser takes one item off the front of
what has arrived, asks for more, or gives up; what comes later never changes what it
said. Draining a buffer whenever something arrives gives the items of the whole stream.
-/

inductive Parsed (α β : Type) where
  | item (b : β) (rest : List α)
  | more
  | bad

structure PrefixParser (α β : Type) where
  parse : List α → Parsed α β
  shorter : ∀ {s : List α} {b : β} {rest : List α}, parse s = .item b rest → rest.length < s.length
  item_append : ∀ {s : List α} {b : β} {rest : List α} (t : List α), parse s = .item b rest →
    parse (s ++ t) = .item b (rest ++ t)
  bad_append : ∀ {s : List α} (t : List α), parse s = .bad → parse (s ++ t) = .bad

/-- The items found, what is left of the buffer, and whether the parser gave up on that. -/
@[ext] structure Drained (α β : Type) where
  items : List β
  rest : List α
  bad : Bool

namespace PrefixParser

variable {α β : Type} (p : PrefixParser α β)

def drain (s : List α) : Drained α β :=
  match _h : p.parse s with
  | .item b rest =>
      let d := drain rest
      { d with items := b :: d.items }
  | .more => ⟨[], s, false⟩
  | .bad => ⟨[], s, true⟩
termination_by s.length
decreasing_by exact p.shorter _h

variable {p}

theorem drain_of_item {s rest : List α} {b : β} (h : p.parse s = .item b rest) :
    p.drain s = { p.drain rest with items := b :: (p.drain rest).items } := by
  rw [drain]
  split
  · rename_i heq
    rw [h] at heq
    cases heq
    rfl
  · rename_i heq
    rw [h] at heq
    cases heq
  · rename_i heq
    rw [h] at heq
    cases heq

theorem drain_of_more {s : List α} (h : p.parse s = .more) : p.drain s = ⟨[], s, false⟩ := by
  rw [drain]
  split
  · rename_i heq
    rw [h] at heq
    cases heq
  · rfl
  · rename_i heq
    rw [h] at heq
    cases heq

theorem drain_of_bad {s : List α} (h : p.parse s = .bad) : p.drain s = ⟨[], s, true⟩ := by
  rw [drain]
  split
  · rename_i heq
    rw [h] at heq
    cases heq
  · rename_i heq
    rw [h] at heq
    cases heq
  · rfl

/-- What is left is no item, and it is bad exactly when the parser gave up. -/
theorem parse_rest (s : List α) :
    p.parse (p.drain s).rest = if (p.drain s).bad then .bad else .more := by
  fun_induction p.drain s with
  | case1 s b rest h d ih => exact ih
  | case2 s h => simpa using h
  | case3 s h => simpa using h

/-- It does not matter where the stream is cut. -/
theorem drain_append (s t : List α) :
    p.drain (s ++ t) =
      { p.drain ((p.drain s).rest ++ t) with
        items := (p.drain s).items ++ (p.drain ((p.drain s).rest ++ t)).items } := by
  fun_induction p.drain s with
  | case1 s b rest h d ih =>
      rw [drain_of_item (p.item_append t h), ih]
      rfl
  | case2 s h => rfl
  | case3 s h => rfl

/-- Once the parser has given up, nothing more comes of the stream. -/
theorem drain_append_of_bad {s : List α} (h : (p.drain s).bad = true) (t : List α) :
    p.drain (s ++ t) = ⟨(p.drain s).items, (p.drain s).rest ++ t, true⟩ := by
  have hrest := p.parse_rest s
  rw [if_pos h] at hrest
  rw [drain_append, drain_of_bad (p.bad_append t hrest), List.append_nil]

end PrefixParser
