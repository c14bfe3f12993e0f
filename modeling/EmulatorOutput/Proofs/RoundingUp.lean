import EmulatorOutput.Proofs.AcceptedSetup

/-!
# Rounding up to the end of the words

Which words rounding up to a power of two has an answer for. The words are a whole number of
alignments, so the least multiple that is not below a word is a word itself just up to the last
multiple there is. Rounding comes to it, by a mask of bits, everywhere but at this last multiple:
there the answer would be the word itself, but its sum with the alignment is one too many.
-/

namespace EmulatorOutput.Sound

/-! ## Multiples that are words -/

/-- The last multiple of an alignment that is a word. -/
def lastMultiple (alignment : Nat) : Nat := Word.limit - alignment

/-- Different multiples are a whole alignment apart. -/
theorem le_sub_of_dvd {alignment m n : Nat} (hm : alignment ∣ m) (hn : alignment ∣ n)
    (h : m < n) : m ≤ n - alignment := by
  have hgap : alignment ≤ n - m := Nat.le_of_dvd (Nat.sub_pos_of_lt h) (Nat.dvd_sub hn hm)
  omega

/-- The least multiple lies below a bound, itself a multiple, for the values up to the multiple
before the bound. -/
theorem least_lt_iff {value alignment least bound : Nat}
    (hleast : IsLeast {n | alignment ∣ n ∧ value ≤ n} least) (hpos : 0 < alignment)
    (hdvd : alignment ∣ bound) (hbound : 0 < bound) :
    least < bound ↔ value ≤ bound - alignment := by
  obtain ⟨⟨hmultiple, hle⟩, hlower⟩ := hleast
  constructor
  · intro hlt
    exact Nat.le_trans hle (le_sub_of_dvd hmultiple hdvd hlt)
  · intro hvalue
    have hbefore : alignment ∣ bound - alignment := Nat.dvd_sub hdvd (Nat.dvd_refl _)
    exact Nat.lt_of_le_of_lt (hlower ⟨hbefore, hvalue⟩) (Nat.sub_lt hbound hpos)

theorem dvd_limit {alignment : Nat} (hpower : isPowerOfTwo alignment = true)
    (hword : alignment < Word.limit) : alignment ∣ Word.limit := by
  obtain ⟨k, rfl⟩ := isPowerOfTwo_iff.mp hpower
  have hexp : k < 64 := (Nat.pow_lt_pow_iff_right (by decide)).mp hword
  exact Nat.pow_dvd_pow 2 (Nat.le_of_lt hexp)

theorem isGreatest_lastMultiple {alignment : Nat} (hpower : isPowerOfTwo alignment = true)
    (hword : alignment < Word.limit) :
    IsGreatest {n | alignment ∣ n ∧ n < Word.limit} (lastMultiple alignment) := by
  have hdvd := dvd_limit hpower hword
  have hpos := pos_of_isPowerOfTwo hpower
  refine ⟨⟨Nat.dvd_sub hdvd (Nat.dvd_refl _), Nat.sub_lt (by decide) hpos⟩, ?_⟩
  rintro n ⟨hn, hlt⟩
  exact le_sub_of_dvd hn hdvd hlt

/-! ## The mask -/

/-- A word is made up of its bits outside a mask and those inside it. -/
theorem toNat_and_not_add_and {width : Nat} (x mask : BitVec width) :
    (x &&& ~~~mask).toNat + (x &&& mask).toNat = x.toNat := by
  have hdisjoint : (x &&& ~~~mask) &&& (x &&& mask) = BitVec.ofNat width 0 := by
    calc (x &&& ~~~mask) &&& (x &&& mask)
        = (x &&& x) &&& (~~~mask &&& mask) := by ac_rfl
      _ = BitVec.ofNat width 0 := by simp
  rw [← BitVec.toNat_add_of_and_eq_zero hdisjoint, BitVec.add_eq_or_of_and_eq_zero _ _ hdisjoint,
    ← BitVec.and_or_distrib_left, BitVec.not_or_self, BitVec.and_allOnes]

/-- Where the sum is a word, rounding up clears the bits of the sum below the alignment. -/
theorem alignUp_eq_mask {value alignment : UInt64} (hpos : 0 < alignment.toNat)
    (hsum : value.toNat + alignment.toNat < Word.limit) :
    alignUp value.toNat alignment.toNat =
      .ok ((value + alignment - 1) &&& ~~~(alignment - 1)).toNat := by
  have hadd : (value + alignment).toNat = value.toNat + alignment.toNat := by
    rw [UInt64.toNat_add]
    exact Nat.mod_eq_of_lt hsum
  have hone {x : UInt64} (hx : 0 < x.toNat) : (x - 1).toNat = x.toNat - 1 :=
    UInt64.toNat_sub_of_le _ _ (UInt64.le_iff_toNat_le.mpr hx)
  have hcleared {x mask : UInt64} : (x &&& ~~~mask).toNat = x.toNat - (x.toNat &&& mask.toNat) :=
    Nat.eq_sub_of_add_eq (toNat_and_not_add_and x.toBitVec mask.toBitVec)
  rw [hcleared, hone (by omega), hone hpos, hadd]
  exact alignUp_of_lt hpos hsum

/-- Clearing bits comes to multiples of a power of two, and of no other alignment: already the
value one is rounded to the lowest bit of the alignment, which is all of it only for a power. -/
theorem forall_dvd_alignUp_iff {alignment : Nat} (hpos : 0 < alignment)
    (hword : 1 + alignment < Word.limit) :
    (∀ value size, alignUp value alignment = .ok size → alignment ∣ size) ↔
      isPowerOfTwo alignment = true := by
  constructor
  · intro hdvd
    have hone := alignUp_of_lt hpos hword
    rw [Nat.add_sub_cancel_left] at hone
    have hand : alignment &&& (alignment - 1) ≤ alignment - 1 := Nat.and_le_right
    have hle := Nat.le_of_dvd (by omega) (hdvd 1 _ hone)
    have hzero : alignment &&& (alignment - 1) = 0 := by omega
    simp [isPowerOfTwo, hzero, Nat.ne_of_gt hpos]
  · intro hpower value size h
    exact (isLeast_alignUp hpower h).1.1

/-! ## All words -/

/-- Rounding comes to the least multiple below the last one, and breaks off from there on. -/
theorem alignUp_eq_of_isLeast {value alignment least : Nat}
    (hpower : isPowerOfTwo alignment = true)
    (hleast : IsLeast {n | alignment ∣ n ∧ value ≤ n} least) :
    alignUp value alignment =
      if value < lastMultiple alignment then .ok least else .error .addOverflow := by
  split
  · rename_i hvalue
    have hsize := (alignUp_eq_ok_iff hpower).mpr ⟨Nat.add_lt_of_lt_sub hvalue, rfl⟩
    rw [hsize, (isLeast_alignUp hpower hsize).unique hleast]
  · rename_i hvalue
    exact alignUp_of_le (Nat.sub_le_iff_le_add.mp (Nat.le_of_not_lt hvalue))

/-- A second rounding changes nothing, unless the first one comes to the last multiple. -/
theorem alignUp_twice {value alignment : Nat} (hpower : isPowerOfTwo alignment = true)
    (hword : alignment < Word.limit) :
    (alignUp value alignment >>= (alignUp · alignment)) =
      if value ≤ lastMultiple alignment - alignment then alignUp value alignment
      else .error .addOverflow := by
  have hpos := pos_of_isPowerOfTwo hpower
  have hlast : 0 < lastMultiple alignment := Nat.sub_pos_of_lt hword
  have hleast := isLeast_mul_ceilDiv hpos value
  by_cases hvalue : value < lastMultiple alignment
  · -- a multiple is the least one for itself
    have hself : IsLeast {n | alignment ∣ n ∧ alignment * (value ⌈/⌉ alignment) ≤ n}
        (alignment * (value ⌈/⌉ alignment)) := ⟨⟨hleast.1.1, Nat.le_refl _⟩, fun _ h => h.2⟩
    have hbelow := least_lt_iff hleast hpos (isGreatest_lastMultiple hpower hword).1.1 hlast
    rw [alignUp_eq_of_isLeast hpower hleast, if_pos hvalue]
    change alignUp _ _ = _
    rw [alignUp_eq_of_isLeast hpower hself]
    simp only [hbelow]
  · have hbeyond : ¬ value ≤ lastMultiple alignment - alignment := by omega
    rw [alignUp_eq_of_isLeast hpower hleast, if_neg hvalue, if_neg hbeyond]
    rfl

theorem alignUp_mono {value larger alignment size : Nat} (hpower : isPowerOfTwo alignment = true)
    (hle : value ≤ larger) (h : alignUp larger alignment = .ok size) :
    ∃ smaller ≤ size, alignUp value alignment = .ok smaller := by
  obtain ⟨hsum, -⟩ := (alignUp_eq_ok_iff hpower).mp h
  have hsmaller := (alignUp_eq_ok_iff hpower).mpr
    ⟨Nat.lt_of_le_of_lt (Nat.add_le_add_right hle alignment) hsum, rfl⟩
  obtain ⟨⟨hdvd, hsize⟩, -⟩ := isLeast_alignUp hpower h
  exact ⟨_, (isLeast_alignUp hpower hsmaller).2 ⟨hdvd, Nat.le_trans hle hsize⟩, hsmaller⟩

/-- Rounding a word up to a power of two. The least multiple that is not below the word is a word
itself just up to the last multiple there is. Rounding comes to it below that multiple, as the
masked sum, and breaks off with the sum at that multiple and beyond. What it comes to can be
rounded again, without a change, up to one alignment before; and a word that is not above one
that can be rounded can be rounded too, to no more. -/
theorem alignUp_endings (value alignment : UInt64) (hpower : alignment.toNat.isPowerOfTwo) :
    let v := value.toNat
    let a := alignment.toNat
    let last := lastMultiple a
    IsGreatest {n | a ∣ n ∧ n < Word.limit} last ∧
    (∃ least, IsLeast {n | a ∣ n ∧ v ≤ n} least ∧
      (least < Word.limit ↔ v ≤ last) ∧
      alignUp v a = (if v < last then .ok least else .error .addOverflow) ∧
      (v < last → least = ((value + alignment - 1) &&& ~~~(alignment - 1)).toNat)) ∧
    (alignUp v a >>= (alignUp · a)) =
      (if v ≤ last - a then alignUp v a else .error .addOverflow) ∧
    ∀ w size, w ≤ v → alignUp v a = .ok size → ∃ smaller ≤ size, alignUp w a = .ok smaller := by
  intro v a last
  have hbits : isPowerOfTwo a = true := isPowerOfTwo_iff.mpr hpower
  have hpos : 0 < a := pos_of_isPowerOfTwo hbits
  have hword : a < Word.limit := alignment.toNat_lt_size
  have hleast := isLeast_mul_ceilDiv hpos v
  have hrounded := alignUp_eq_of_isLeast hbits hleast
  refine ⟨isGreatest_lastMultiple hbits hword, ⟨_, hleast, ?_, hrounded, fun hv => ?_⟩,
    alignUp_twice hbits hword, fun w size hle h => alignUp_mono hbits hle h⟩
  · -- the number of words is the multiple after the last one
    exact least_lt_iff hleast hpos (dvd_limit hbits hword) (by decide)
  · rw [if_pos hv, alignUp_eq_mask hpos (Nat.add_lt_of_lt_sub hv)] at hrounded
    exact (Except.ok.inj hrounded).symm

/-- The word before the last page: it is rounded to that page, which cannot be rounded again. -/
theorem alignUp_endings_lastPage :
    (4096).isPowerOfTwo ∧
      IsLeast {n | 4096 ∣ n ∧ 18446744073709547519 ≤ n} 18446744073709547520 ∧
      alignUp 18446744073709547519 4096 = .ok 18446744073709547520 ∧
      (alignUp 18446744073709547519 4096 >>= (alignUp · 4096)) = .error .addOverflow := by
  have hpower : (4096).isPowerOfTwo := ⟨12, rfl⟩
  obtain ⟨-, ⟨least, hleast, -, hrounded, -⟩, htwice, -⟩ :=
    alignUp_endings 18446744073709547519 4096 hpower
  have hpage : alignUp 18446744073709547519 4096 = .ok 18446744073709547520 := rfl
  obtain rfl : 18446744073709547520 = least := Except.ok.inj (hpage.symm.trans hrounded)
  exact ⟨hpower, hleast, hpage, htwice⟩

/-- The last page is the least multiple for itself and a word, and rounding breaks off at it. -/
theorem alignUp_breaks_off_lastPage :
    IsLeast {n | 4096 ∣ n ∧ 18446744073709547520 ≤ n} 18446744073709547520 ∧
      18446744073709547520 < Word.limit ∧
      alignUp 18446744073709547520 4096 = .error .addOverflow :=
  ⟨⟨⟨by decide, Nat.le_refl _⟩, fun _ h => h.2⟩, by decide, rfl⟩

end EmulatorOutput.Sound
