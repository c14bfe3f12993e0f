import EmulatorOutput.Picture.Resample
import Mathlib.Algebra.BigOperators.Ring.List
import Mathlib.Algebra.Order.BigOperators.Group.List
import Mathlib.Tactic.Ring

/-!
# Means of channels

The channels of a packed pixel have bits of their own, so that packing takes nothing from one
channel and adds nothing to another. A blend is the weighted mean of each channel, rounded down,
and a mean lies between values that it gives some weight to.
-/

namespace EmulatorOutput.Picture

theorem toNat_and_mask {a mask : UInt16} {n : Nat} (hmask : mask.toNat = 2 ^ n - 1) :
    (a &&& mask).toNat = a.toNat % 2 ^ n := by
  rw [UInt16.toNat_and, hmask, Nat.and_two_pow_sub_one_eq_mod]

namespace Channels

theorem toNat_unpack_b (q : UInt16) : (unpack q).b.toNat = q.toNat % 32 := by
  have hmask : (q &&& 0x1F : UInt16).toNat = q.toNat % 2 ^ 5 := toNat_and_mask rfl
  change (q &&& 0x1F : UInt16).toUInt8.toNat = _
  rw [UInt16.toNat_toUInt8, hmask]
  omega

theorem toNat_unpack_g (q : UInt16) : (unpack q).g.toNat = q.toNat / 32 % 64 := by
  have hshift : (q >>> 5 : UInt16).toNat = q.toNat / 2 ^ 5 := by
    rw [UInt16.toNat_shiftRight, Nat.shiftRight_eq_div_pow]
    rfl
  have hmask : ((q >>> 5) &&& 0x3F : UInt16).toNat = (q >>> 5 : UInt16).toNat % 2 ^ 6 :=
    toNat_and_mask rfl
  change ((q >>> 5) &&& 0x3F : UInt16).toUInt8.toNat = _
  rw [UInt16.toNat_toUInt8, hmask, hshift]
  omega

theorem toNat_unpack_r (q : UInt16) : (unpack q).r.toNat = q.toNat / 2048 := by
  have hq := q.toNat_lt
  have hshift : (q >>> 11 : UInt16).toNat = q.toNat / 2 ^ 11 := by
    rw [UInt16.toNat_shiftRight, Nat.shiftRight_eq_div_pow]
    rfl
  have hmask : ((q >>> 11) &&& 0x1F : UInt16).toNat = (q >>> 11 : UInt16).toNat % 2 ^ 5 :=
    toNat_and_mask rfl
  change ((q >>> 11) &&& 0x1F : UInt16).toUInt8.toNat = _
  rw [UInt16.toNat_toUInt8, hmask, hshift]
  omega

theorem toNat_pack (c : Channels) :
    c.pack.toNat = c.b.toNat % 32 + 32 * (c.g.toNat % 64) + 2048 * (c.r.toNat % 32) := by
  have hblue : (c.b.toUInt16 &&& 0x1F : UInt16).toNat = c.b.toNat % 2 ^ 5 := toNat_and_mask rfl
  have hgreen : ((c.g.toUInt16 &&& 0x3F) <<< 5 : UInt16).toNat = (c.g.toNat % 2 ^ 6) <<< 5 := by
    have hmask : (c.g.toUInt16 &&& 0x3F : UInt16).toNat = c.g.toNat % 2 ^ 6 := toNat_and_mask rfl
    rw [UInt16.toNat_shiftLeft, hmask]
    change (c.g.toNat % 2 ^ 6) <<< 5 % 2 ^ 16 = _
    rw [Nat.shiftLeft_eq]
    omega
  have hred : ((c.r.toUInt16 &&& 0x1F) <<< 11 : UInt16).toNat = (c.r.toNat % 2 ^ 5) <<< 11 := by
    have hmask : (c.r.toUInt16 &&& 0x1F : UInt16).toNat = c.r.toNat % 2 ^ 5 := toNat_and_mask rfl
    rw [UInt16.toNat_shiftLeft, hmask]
    change (c.r.toNat % 2 ^ 5) <<< 11 % 2 ^ 16 = _
    rw [Nat.shiftLeft_eq]
    omega
  -- the bits of the channels do not meet, so that joining them adds them
  have hlow : c.b.toNat % 2 ^ 5 ||| (c.g.toNat % 2 ^ 6) <<< 5 =
      (c.g.toNat % 2 ^ 6) <<< 5 + c.b.toNat % 2 ^ 5 := by
    rw [Nat.or_comm, Nat.shiftLeft_add_eq_or_of_lt (Nat.mod_lt _ (by decide))]
  have hlt : (c.g.toNat % 2 ^ 6) <<< 5 + c.b.toNat % 2 ^ 5 < 2 ^ 11 := by
    rw [Nat.shiftLeft_eq]
    omega
  change ((c.b.toUInt16 &&& (0x1F : UInt16)) ||| ((c.g.toUInt16 &&& (0x3F : UInt16)) <<< 5) |||
    ((c.r.toUInt16 &&& (0x1F : UInt16)) <<< 11)).toNat = _
  rw [UInt16.toNat_or, UInt16.toNat_or, hblue, hgreen, hred, hlow, Nat.or_comm,
    ← Nat.shiftLeft_add_eq_or_of_lt hlt, Nat.shiftLeft_eq, Nat.shiftLeft_eq]
  omega

end Channels

inductive Channel where
  | red
  | green
  | blue
  deriving DecidableEq, Repr

namespace Channel

def get (ch : Channel) (c : Channels) : Nat :=
  match ch with
  | red => c.r.toNat
  | green => c.g.toNat
  | blue => c.b.toNat

def value (ch : Channel) (q : UInt16) : Nat := ch.get (Channels.unpack q)

def most : Channel → Nat
  | green => 63
  | red | blue => 31

theorem value_le (ch : Channel) (q : UInt16) : ch.value q ≤ ch.most := by
  have hq := q.toNat_lt
  cases ch with
  | red =>
    change (Channels.unpack q).r.toNat ≤ 31
    rw [Channels.toNat_unpack_r]
    omega
  | green =>
    change (Channels.unpack q).g.toNat ≤ 63
    rw [Channels.toNat_unpack_g]
    omega
  | blue =>
    change (Channels.unpack q).b.toNat ≤ 31
    rw [Channels.toNat_unpack_b]
    omega

theorem value_pack {ch : Channel} {c : Channels} (h : ch.get c ≤ ch.most) :
    ch.value c.pack = ch.get c := by
  have hpack := c.toNat_pack
  cases ch with
  | red =>
    change c.r.toNat ≤ 31 at h
    change (Channels.unpack c.pack).r.toNat = c.r.toNat
    rw [Channels.toNat_unpack_r]
    omega
  | green =>
    change c.g.toNat ≤ 63 at h
    change (Channels.unpack c.pack).g.toNat = c.g.toNat
    rw [Channels.toNat_unpack_g]
    omega
  | blue =>
    change c.b.toNat ≤ 31 at h
    change (Channels.unpack c.pack).b.toNat = c.b.toNat
    rw [Channels.toNat_unpack_b]
    omega

/-- A packed pixel is its channels. -/
theorem eq_of_value {q r : UInt16} (h : ∀ ch : Channel, ch.value q = ch.value r) : q = r := by
  have hred : (Channels.unpack q).r.toNat = (Channels.unpack r).r.toNat := h red
  have hgreen : (Channels.unpack q).g.toNat = (Channels.unpack r).g.toNat := h green
  have hblue : (Channels.unpack q).b.toNat = (Channels.unpack r).b.toNat := h blue
  rw [Channels.toNat_unpack_r, Channels.toNat_unpack_r] at hred
  rw [Channels.toNat_unpack_g, Channels.toNat_unpack_g] at hgreen
  rw [Channels.toNat_unpack_b, Channels.toNat_unpack_b] at hblue
  apply UInt16.toNat_inj.mp
  omega

end Channel

/-! ## Weighted means -/

section Means

variable {α : Type} {v : α → Nat} {es : List (Nat × α)}

def totalWeight (es : List (Nat × α)) : Nat := (es.map Prod.fst).sum

/-- The weighted mean of some values, rounded down. -/
def mean (v : α → Nat) (es : List (Nat × α)) : Nat :=
  (es.map fun e => e.1 * v e.2).sum / totalWeight es

theorem weightedSum_le {m : Nat} (h : ∀ e ∈ es, e.1 ≠ 0 → v e.2 ≤ m) :
    (es.map fun e => e.1 * v e.2).sum ≤ totalWeight es * m := by
  rw [totalWeight, ← List.sum_map_mul_right]
  apply List.sum_le_sum
  intro e he
  by_cases hweight : e.1 = 0
  · rw [hweight, Nat.zero_mul, Nat.zero_mul]
  · exact Nat.mul_le_mul_left _ (h e he hweight)

theorem le_weightedSum {m : Nat} (h : ∀ e ∈ es, e.1 ≠ 0 → m ≤ v e.2) :
    totalWeight es * m ≤ (es.map fun e => e.1 * v e.2).sum := by
  rw [totalWeight, ← List.sum_map_mul_right]
  apply List.sum_le_sum
  intro e he
  by_cases hweight : e.1 = 0
  · rw [hweight, Nat.zero_mul, Nat.zero_mul]
  · exact Nat.mul_le_mul_left _ (h e he hweight)

theorem exists_le_mean (hpos : 0 < totalWeight es) : ∃ e ∈ es, e.1 ≠ 0 ∧ v e.2 ≤ mean v es := by
  by_contra hnone
  have habove : ∀ e ∈ es, e.1 ≠ 0 → mean v es + 1 ≤ v e.2 := by
    intro e he hweight
    by_contra hle
    exact hnone ⟨e, he, hweight, by omega⟩
  have hle : mean v es + 1 ≤ mean v es := by
    rw [mean, Nat.le_div_iff_mul_le hpos, Nat.mul_comm]
    exact le_weightedSum habove
  omega

theorem exists_mean_le (hpos : 0 < totalWeight es) : ∃ e ∈ es, e.1 ≠ 0 ∧ mean v es ≤ v e.2 := by
  by_contra hnone
  have hbelow : ∀ e ∈ es, e.1 ≠ 0 → v e.2 < mean v es := by
    intro e he hweight
    by_contra hle
    exact hnone ⟨e, he, hweight, by omega⟩
  have hle : mean v es ≤ mean v es - 1 := by
    apply Nat.div_le_of_le_mul
    exact weightedSum_le fun e he hweight => Nat.le_sub_one_of_lt (hbelow e he hweight)
  obtain ⟨e, he, hweight, -⟩ := exists_le_mean (v := v) hpos
  have hlt : v e.2 < mean v es := hbelow e he hweight
  omega

theorem mean_le {m : Nat} (hpos : 0 < totalWeight es) (h : ∀ e ∈ es, v e.2 ≤ m) :
    mean v es ≤ m := by
  obtain ⟨e, he, -, hle⟩ := exists_mean_le (v := v) hpos
  exact Nat.le_trans hle (h e he)

end Means

/-! ## Blends -/

/-- Four neighbours with what each weighs at a position between them. -/
def weigh (dx dy : Nat) (a b c d : UInt16) : List (Nat × UInt16) :=
  [((256 - dx) * (256 - dy), a), (dx * (256 - dy), b), ((256 - dx) * dy, c), (dx * dy, d)]

theorem totalWeight_weigh {dx dy : Nat} (hx : dx ≤ 256) (hy : dy ≤ 256) (a b c d : UInt16) :
    totalWeight (weigh dx dy a b c d) = 65536 := by
  obtain ⟨u, hu⟩ : ∃ u, 256 - dx = u := ⟨_, rfl⟩
  obtain ⟨w, hw⟩ : ∃ w, 256 - dy = w := ⟨_, rfl⟩
  have hsides : (u + dx) * (w + dy) = 65536 := by
    have hux : u + dx = 256 := by omega
    have hwy : w + dy = 256 := by omega
    rw [hux, hwy]
  simp only [totalWeight, weigh, List.map_cons, List.map_nil, List.sum_cons, List.sum_nil, hu, hw]
  rw [← hsides]
  ring

theorem get_mixChannel (ch : Channel) (dx dy : Nat) (a b c d : Channels) :
    ch.get
      { r := mixChannel dx dy a.r b.r c.r d.r
        g := mixChannel dx dy a.g b.g c.g d.g
        b := mixChannel dx dy a.b b.b c.b d.b } =
      (ch.get a * ((256 - dx) * (256 - dy)) + ch.get b * (dx * (256 - dy)) +
        ch.get c * ((256 - dx) * dy) + ch.get d * (dx * dy)) / 65536 % 256 := by
  cases ch <;> exact UInt8.toNat_ofNat'

/-- Each channel of a blend is the mean of that channel alone. -/
theorem value_blend (ch : Channel) {dx dy : Nat} (hx : dx ≤ 256) (hy : dy ≤ 256)
    (a b c d : UInt16) :
    ch.value (blend a b c d dx dy) = mean ch.value (weigh dx dy a b c d) := by
  have htotal := totalWeight_weigh hx hy a b c d
  have hmean : mean ch.value (weigh dx dy a b c d) ≤ ch.most :=
    mean_le (by rw [htotal]; decide) fun e _ => ch.value_le e.2
  have hmost : ch.most < 256 := by cases ch <;> decide
  have hsum : mean ch.value (weigh dx dy a b c d) =
      (ch.value a * ((256 - dx) * (256 - dy)) + ch.value b * (dx * (256 - dy)) +
        ch.value c * ((256 - dx) * dy) + ch.value d * (dx * dy)) / 65536 := by
    rw [mean, htotal]
    simp only [weigh, List.map_cons, List.map_nil, List.sum_cons, List.sum_nil]
    congr 1
    ring
  have hget := get_mixChannel ch dx dy (Channels.unpack a) (Channels.unpack b)
    (Channels.unpack c) (Channels.unpack d)
  rw [← Nat.mod_eq_of_lt (Nat.lt_of_le_of_lt hmean hmost)]
  rw [hsum] at hmean ⊢
  rw [blend, Channel.value_pack]
  · exact hget
  · rw [hget]
    exact Nat.le_trans (Nat.mod_le _ _) hmean

end EmulatorOutput.Picture
