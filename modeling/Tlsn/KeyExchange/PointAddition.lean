import Tlsn.KeyExchange.P256
import Tlsn.Library.Interaction

/-!
Addition of two private points: each party ends up with an additive share of the x
coordinate of the sum. The conversion of shares is ideal, with any shares that fit.
-/

namespace Tlsn.KeyExchange

inductive Role where
  | leader
  | follower
deriving DecidableEq

inductive KeyExchangeError where
  | state (text : String)
  | ctx (text : String)
  | io (text : String)
  | vm (text : String)
  | shareConversion (text : String)
  | role (text : String)
  | key (text : String)
deriving DecidableEq

namespace KeyExchangeError

def text : KeyExchangeError → String
  | state text => "state error: " ++ text
  | ctx text => "context error: " ++ text
  | io text => "io error: " ++ text
  | vm text => "vm error: " ++ text
  | shareConversion text => "share conversion error: " ++ text
  | role text => "role error: " ++ text
  | key text => "key error: " ++ text

end KeyExchangeError

abbrev PublicKey := AffinePoint

/-- The two instances of the share conversion protocol. -/
inductive Converter where
  | converter0
  | converter1
deriving DecidableEq

/-- What a party puts to the other: the follower's key, and shares to be converted. -/
inductive Query where
  | send (key : PublicKey)
  | expectNext
  | toMultiplicative (converter : Converter) (shares : List P256)
  | toAdditive (converter : Converter) (shares : List P256)

inductive Reply where
  | sent
  | key (key : PublicKey)
  | shares (shares : List P256)
  | failed (text : String)

abbrev Exchange (σ α : Type) := Interactive Query Reply (Fault KeyExchangeError) σ α

namespace Exchange

variable {σ α : Type}

def fail (e : Fault KeyExchangeError) : Exchange σ α := .alone (throw e)

def ofExcept (x : Except (Fault KeyExchangeError) α) : Exchange σ α := .alone (Fault.lift x)

/-- Queues the shares, flushes, and awaits what they are converted to. -/
def convert (query : Query) : Exchange σ (List P256) := do
  match ← Interactive.query query with
  | .shares shares => return shares
  | .failed text => fail (.err (.shareConversion text))
  | _ => fail .panic

end Exchange

/-- Decomposes the x and y coordinates of a SEC1 encoded point. -/
def decomposePoint (point : EncodedPoint) : Except (Fault KeyExchangeError) (P256 × P256) :=
  match point.x, point.y with
  | none, _ => .error (.err (.key "key share is an identity point"))
  | some _, none => .error (.err (.key "key share is an identity point or compressed"))
  | some x, some y =>
      match P256.tryFrom x.reverse, P256.tryFrom y.reverse with
      | some x, some y => .ok (x, y)
      | _, _ => .error .panic

theorem decomposePoint_ofPoint {x y : P256} (h : curve.Nonsingular x y) :
    decomposePoint (.ofPoint (.some x y h)) = .ok (x, y) := by
  simp only [decomposePoint, EncodedPoint.ofPoint, EncodedPoint.x, EncodedPoint.y,
    P256.tryFrom_reverse_toBeBytes]

/-- Follower negates their share coordinates. -/
def shareInputs (role : Role) (x y : P256) : List P256 :=
  match role with
  | .leader => [y, x]
  | .follower => [-y, -x]

/-- Derives the x-coordinate share of an elliptic curve point. -/
def deriveXCoordShare {σ : Type} (role : Role) (converter : Converter) (share : EncodedPoint) :
    Exchange σ P256 := do
  let (x, y) ← Exchange.ofExcept (decomposePoint share)
  match ← Exchange.convert (.toMultiplicative converter (shareInputs role x y)) with
  | [a, b] =>
      match b.inverse with
      | none => Exchange.fail .panic
      | some inverse => do
          let c := a * inverse
          match ← Exchange.convert (.toAdditive converter [c * c]) with
          | d :: _ => return d + -x
          | [] => Exchange.fail .panic
  | _ => Exchange.fail .panic

/-! ## The ideal protocol -/

/-- The shares of one party and those of the other make up the same values before and after,
added up and multiplied. The follower's key gets to the leader. -/
inductive ShareConvert : Party.Functionality Query Reply
  | key (key : PublicKey) : ShareConvert .expectNext (.send key) (.key key) .sent
  | toMultiplicative {converter : Converter} {xs ys zs ws : List P256}
      (hlen : xs.length = ys.length) (hzs : zs.length = xs.length) (hws : ws.length = ys.length)
      (h : List.zipWith (· * ·) zs ws = List.zipWith (· + ·) xs ys) :
      ShareConvert (.toMultiplicative converter xs) (.toMultiplicative converter ys)
        (.shares zs) (.shares ws)
  | toAdditive {converter : Converter} {xs ys zs ws : List P256}
      (hlen : xs.length = ys.length) (hzs : zs.length = xs.length) (hws : ws.length = ys.length)
      (h : List.zipWith (· + ·) zs ws = List.zipWith (· * ·) xs ys) :
      ShareConvert (.toAdditive converter xs) (.toAdditive converter ys) (.shares zs) (.shares ws)

section Conversion

variable {σ : Type} {s s' : σ} {converter : Converter} {xs ys : List P256}

theorem ensures_convert {q q' : Query} {post : List P256 → List P256 → Prop}
    (hreply : ∃ zs ws, ShareConvert q q' (.shares zs) (.shares ws))
    (h : ∀ r r', ShareConvert q q' r r' →
      ∃ zs ws, r = .shares zs ∧ r' = .shares ws ∧ post zs ws) :
    Interactive.Ensures ShareConvert (fun zs t ws t' => t = s ∧ t' = s' ∧ post zs ws)
      (Exchange.convert q) (Exchange.convert q') s s' := by
  obtain ⟨zs, ws, hzs⟩ := hreply
  refine ⟨⟨_, _, hzs⟩, ?_⟩
  intro r r' hideal
  obtain ⟨zs', ws', rfl, rfl, hpost⟩ := h r r' hideal
  exact ⟨rfl, rfl, hpost⟩

theorem ensures_toMultiplicative (hlen : xs.length = ys.length) :
    Interactive.Ensures ShareConvert
      (fun zs t ws t' => t = s ∧ t' = s' ∧ zs.length = xs.length ∧ ws.length = ys.length ∧
        List.zipWith (· * ·) zs ws = List.zipWith (· + ·) xs ys)
      (Exchange.convert (.toMultiplicative converter xs))
      (Exchange.convert (.toMultiplicative converter ys)) s s' := by
  refine ensures_convert ⟨List.zipWith (· + ·) xs ys, List.replicate ys.length 1, ?_⟩ ?_
  · refine .toMultiplicative hlen ?_ List.length_replicate ?_
    · rw [List.length_zipWith, hlen, Nat.min_self]
    · apply List.ext_getElem
      · simp [hlen]
      · intro i _ _
        simp
  · intro r r' hideal
    cases hideal with
    | toMultiplicative _ hzs hws h => exact ⟨_, _, rfl, rfl, hzs, hws, h⟩

theorem ensures_toAdditive (hlen : xs.length = ys.length) :
    Interactive.Ensures ShareConvert
      (fun zs t ws t' => t = s ∧ t' = s' ∧ zs.length = xs.length ∧ ws.length = ys.length ∧
        List.zipWith (· + ·) zs ws = List.zipWith (· * ·) xs ys)
      (Exchange.convert (.toAdditive converter xs)) (Exchange.convert (.toAdditive converter ys))
        s s' := by
  refine ensures_convert ⟨List.zipWith (· * ·) xs ys, List.replicate ys.length 0, ?_⟩ ?_
  · refine .toAdditive hlen ?_ List.length_replicate ?_
    · rw [List.length_zipWith, hlen, Nat.min_self]
    · apply List.ext_getElem
      · simp [hlen]
      · intro i _ _
        simp
  · intro r r' hideal
    cases hideal with
    | toAdditive _ hzs hws h => exact ⟨_, _, rfl, rfl, hzs, hws, h⟩

end Conversion

theorem deriveXCoordShare_some {σ : Type} {x₁ y₁ x₂ y₂ : P256} {h₁ : curve.Nonsingular x₁ y₁}
    {h₂ : curve.Nonsingular x₂ y₂} (hx : x₁ ≠ x₂) (converter : Converter) (s s' : σ) :
    Interactive.Ensures ShareConvert
      (fun d t d' t' => t = s ∧ t' = s' ∧
        xCoord (WeierstrassCurve.Affine.Point.some x₁ y₁ h₁ + .some x₂ y₂ h₂) = some (d + d'))
      (deriveXCoordShare .leader converter (.ofPoint (.some x₁ y₁ h₁)))
      (deriveXCoordShare .follower converter (.ofPoint (.some x₂ y₂ h₂))) s s' := by
  have hdiff : x₁ - x₂ ≠ 0 := sub_ne_zero.mpr hx
  unfold deriveXCoordShare
  rw [decomposePoint_ofPoint, decomposePoint_ofPoint]
  refine Interactive.Ensures.alone_bind rfl rfl ?_
  refine Interactive.Ensures.bind (ensures_toMultiplicative rfl) ?_
  rintro zs t ws t' ⟨rfl, rfl, hzs, hws, hmul⟩
  obtain ⟨a, b, rfl⟩ := List.length_eq_two.mp hzs
  obtain ⟨a', b', rfl⟩ := List.length_eq_two.mp hws
  simp only [shareInputs, List.zipWith_cons_cons, List.zipWith_nil_left, List.cons.injEq,
    and_true] at hmul
  obtain ⟨hnum, hden⟩ := hmul
  rw [← sub_eq_add_neg] at hnum hden
  have hb : b ≠ 0 := by
    rintro rfl
    rw [zero_mul] at hden
    exact hdiff hden.symm
  have hb' : b' ≠ 0 := by
    rintro rfl
    rw [mul_zero] at hden
    exact hdiff hden.symm
  simp only [P256.inverse, if_neg hb, if_neg hb']
  refine Interactive.Ensures.bind (ensures_toAdditive rfl) ?_
  rintro zs t ws t' ⟨rfl, rfl, hzs, hws, hadd⟩
  obtain ⟨d, rfl⟩ := List.length_eq_one_iff.mp hzs
  obtain ⟨d', rfl⟩ := List.length_eq_one_iff.mp hws
  simp only [List.zipWith_cons_cons, List.zipWith_nil_left, List.cons.injEq, and_true] at hadd
  refine .pure ⟨rfl, rfl, ?_⟩
  rw [xCoord_add hx, ← hnum, ← hden]
  congr 1
  calc (a * a' / (b * b')) ^ 2 - x₁ - x₂
      = a * b⁻¹ * (a * b⁻¹) * (a' * b'⁻¹ * (a' * b'⁻¹)) - x₁ - x₂ := by
        rw [div_eq_mul_inv, mul_inv]
        ring
    _ = d + d' - x₁ - x₂ := by rw [hadd]
    _ = d + -x₁ + (d' + -x₂) := by ring

/-- Points with different x coordinates: what the parties end up with are shares of the x
coordinate of their sum. -/
theorem deriveXCoordShare_ensures {σ : Type} {A B : AffinePoint} {x₁ x₂ : P256}
    (hA : xCoord A = some x₁) (hB : xCoord B = some x₂) (hx : x₁ ≠ x₂) (converter : Converter)
    (s s' : σ) :
    Interactive.Ensures ShareConvert
      (fun d t d' t' => t = s ∧ t' = s' ∧ xCoord (A + B) = some (d + d'))
      (deriveXCoordShare .leader converter (.ofPoint A))
      (deriveXCoordShare .follower converter (.ofPoint B)) s s' := by
  cases A with
  | zero => cases hA
  | some x y h =>
      cases B with
      | zero => cases hB
      | some x' y' h' =>
          have hxA : x = x₁ := Option.some.inj hA
          have hxB : x' = x₂ := Option.some.inj hB
          rw [← hxA, ← hxB] at hx
          exact deriveXCoordShare_some hx converter s s'

end Tlsn.KeyExchange
