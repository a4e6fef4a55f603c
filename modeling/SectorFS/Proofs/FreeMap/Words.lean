import SectorFS.LittleEndian
import SectorFS.Proofs.FreeMap

/-!
# The map in words

Eight bytes of the map make a word of 64 bits, so a map can also be used word by word: a bit is
tested, set and cleared by a shift within its word, the search skips whole words that are full and
then the ones at the end of a word, and the free sectors are the clear bits less those that name no
sector. The map does the same on bytes, and `byWords` says that it makes no difference, for every
map, even if bits are set that name no sector.
-/

namespace SectorFS

namespace LittleEndian

/-- The bits of a number are those of its digits. -/
theorem testBit_read {count : Nat} {bytes : Nat → UInt8} {bit : Nat} (h : bit < 8 * count) :
    (read count bytes).testBit bit = (bytes (bit / 8)).toNat.testBit (bit % 8) := by
  induction count generalizing bytes bit with
  | zero => omega
  | succ count ih =>
    have hfirst : (bytes 0).toNat < 2 ^ 8 := (bytes 0).toNat_lt
    have hsum : read (count + 1) bytes =
        2 ^ 8 * (read count fun place ↦ bytes (place + 1)) + (bytes 0).toNat := by
      rw [read]
      omega
    rw [hsum, Nat.testBit_two_pow_mul_add _ hfirst]
    by_cases hbit : bit < 8
    · rw [if_pos hbit, Nat.div_eq_of_lt hbit, Nat.mod_eq_of_lt hbit]
    · rw [if_neg hbit, ih (by omega), show (bit - 8) / 8 + 1 = bit / 8 by omega,
        show (bit - 8) % 8 = bit % 8 by omega]

end LittleEndian

namespace FreeMap

variable {map : FreeMap} {sector : Nat}

/-! ## Words -/

/-- The number of words that the bits of a map take. -/
def wordCount (sectors : Nat) : Nat := (sectors + 63) / 64

/-- A word of the map, its first byte the least significant. Bytes past the end count as zero. -/
def word (map : FreeMap) (index : Nat) : BitVec 64 :=
  BitVec.ofNat 64 (LittleEndian.read 8 fun digit ↦ byteAt map.bytes (8 * index + digit))

theorem getLsbD_word (map : FreeMap) {index bit : Nat} (h : bit < 64) :
    (map.word index).getLsbD bit = map.isUsed (64 * index + bit) := by
  rw [word, BitVec.getLsbD_ofNat, decide_eq_true h, Bool.true_and,
    LittleEndian.testBit_read (by omega), isUsed, show 8 * index + bit / 8 = (64 * index + bit) / 8
      by omega, show (64 * index + bit) % 8 = bit % 8 by omega]

/-- The bit of a sector, in its word. -/
theorem getLsbD_word_sector (map : FreeMap) (sector : Nat) :
    (map.word (sector / 64)).getLsbD (sector % 64) = map.isUsed sector := by
  rw [map.getLsbD_word (Nat.mod_lt _ (by decide)), Nat.div_add_mod]

/-- Words with the same bits are equal. -/
theorem word_eq {index : Nat} {value : BitVec 64}
    (h : ∀ bit < 64, map.isUsed (64 * index + bit) = value.getLsbD bit) : map.word index = value :=
  BitVec.eq_of_getLsbD_eq fun bit hbit ↦ (map.getLsbD_word hbit).trans (h bit hbit)

/-- The place of a sector's bit in its word. -/
theorem getLsbD_shift {bit : Nat} (h : bit < 64) (sector : Nat) :
    (1#64 <<< (sector % 64)).getLsbD bit = decide (bit = sector % 64) := by
  rw [BitVec.getLsbD_shiftLeft, BitVec.getLsbD_one]
  grind

/-- Maps over the same sectors are equal if their words are. -/
theorem eq_of_word {left right : FreeMap} (hsectors : left.sectors = right.sectors)
    (h : ∀ index < wordCount left.sectors, left.word index = right.word index) : left = right := by
  refine eq_of_isUsed hsectors fun sector ↦ ?_
  by_cases hsector : sector / 64 < wordCount left.sectors
  · rw [← left.getLsbD_word_sector, ← right.getLsbD_word_sector, h _ hsector]
  · have hpast : byteCount left.sectors ≤ sector / 8 := by
      rw [wordCount] at hsector
      rw [byteCount]
      omega
    rw [not_isUsed_of_byteCount_le hpast, not_isUsed_of_byteCount_le (hsectors ▸ hpast)]

/-! ## Single sectors -/

theorem isUsed_eq_shift (map : FreeMap) (sector : Nat) :
    map.isUsed sector = ((map.word (sector / 64) >>> (sector % 64)) &&& 1#64 == 1#64) := by
  have hbit : (map.word (sector / 64) >>> (sector % 64)).getLsbD 0 = map.isUsed sector := by
    rw [BitVec.getLsbD_ushiftRight, Nat.add_zero, map.getLsbD_word_sector]
  rw [BitVec.and_one_eq_setWidth_ofBool_getLsbD, hbit]
  cases map.isUsed sector <;> rfl

theorem word_mark (h : sector < map.sectors) (index : Nat) :
    (map.mark sector).word index =
      if index = sector / 64 then map.word index ||| 1#64 <<< (sector % 64) else map.word index := by
  apply word_eq
  intro bit hbit
  rw [isUsed_mark map _ h, ← map.getLsbD_word hbit]
  split
  · rename_i hindex
    rw [BitVec.getLsbD_or, getLsbD_shift hbit]
    congr 2
    apply propext
    omega
  · rw [decide_eq_false (by omega), Bool.or_false]

theorem word_clear (h : sector < map.sectors) (index : Nat) :
    (map.clear sector).word index =
      if index = sector / 64 then map.word index &&& ~~~(1#64 <<< (sector % 64))
      else map.word index := by
  apply word_eq
  intro bit hbit
  rw [isUsed_clear map _ h, ← map.getLsbD_word hbit]
  split
  · rename_i hindex
    rw [BitVec.getLsbD_and, BitVec.getLsbD_not, decide_eq_true hbit, Bool.true_and,
      getLsbD_shift hbit]
    congr 3
    apply propext
    omega
  · rw [decide_eq_false (by omega), Bool.not_false, Bool.and_true]

/-! ## First fit -/

/-- The search word by word: full words are skipped, and then the ones at the end of a word. -/
def firstFreeByWord (map : FreeMap) : Option Nat :=
  (((List.range (wordCount map.sectors)).find? fun index ↦ map.word index ≠ BitVec.allOnes 64).map
    fun index ↦ 64 * index + (~~~map.word index).ctz.toNat).filter (· < map.sectors)

/-- The ones at the end of a word that is not full are followed by its lowest clear bit. -/
theorem ctz_not_spec {value : BitVec 64} (h : value ≠ BitVec.allOnes 64) :
    (~~~value).ctz.toNat < 64 ∧ value.getLsbD (~~~value).ctz.toNat = false ∧
      ∀ bit < (~~~value).ctz.toNat, value.getLsbD bit = true := by
  have hne : ~~~value ≠ 0#64 := fun hzero ↦ h (by rw [← BitVec.not_not (b := value), hzero]; rfl)
  have hfound := BitVec.getLsbD_true_ctz_of_ne_zero hne
  have hlt : (~~~value).ctz.toNat < 64 := BitVec.lt_of_getLsbD hfound
  refine ⟨hlt, ?_, fun bit hbit ↦ ?_⟩
  · simpa [hlt] using hfound
  · have hbelow := BitVec.getLsbD_false_of_lt_ctz hbit
    simpa [hbit.trans hlt] using hbelow

theorem isUsed_of_full {index : Nat} (h : map.word index = BitVec.allOnes 64)
    (hsector : sector / 64 = index) : map.isUsed sector = true := by
  rw [← map.getLsbD_word_sector, hsector, h, BitVec.getLsbD_allOnes]
  exact decide_eq_true (Nat.mod_lt _ (by decide))

theorem firstFree_eq_byWord (map : FreeMap) : map.firstFree = map.firstFreeByWord := by
  rw [firstFree_eq_head?, firstFreeByWord]
  cases hfound : (List.range (wordCount map.sectors)).find? fun index ↦
      map.word index ≠ BitVec.allOnes 64 with
  | none =>
    rw [List.find?_eq_none] at hfound
    refine head?_free_of_used fun sector hsector ↦ isUsed_of_full ?_ rfl
    have hindex := hfound (sector / 64)
    simpa [wordCount, show sector / 64 < (map.sectors + 63) / 64 by omega] using hindex
  | some index =>
    obtain ⟨hopen, hindex, hbefore⟩ := List.find?_range_eq_some.mp hfound
    obtain ⟨hlt, hclear, hbelow⟩ := ctz_not_spec (by simpa using hopen)
    rw [map.getLsbD_word hlt] at hclear
    refine head?_free_of_below hclear fun sector hsector ↦ ?_
    simp only at hsector
    by_cases hsame : sector / 64 = index
    · rw [← map.getLsbD_word_sector, hsame]
      exact hbelow (sector % 64) (by omega)
    · have hfull := hbefore (sector / 64) (by omega)
      exact isUsed_of_full (by simpa using hfull) rfl

/-! ## Counting -/

/-- The clear bits of all words, less those that name no sector. -/
def freeCountByWord (map : FreeMap) : Except Trap Nat :=
  Checked.sub
    ((List.range (wordCount map.sectors)).map fun index ↦ (~~~map.word index).cpop.toNat).sum
    (64 * wordCount map.sectors - map.sectors)

theorem cpopNatRec_eq_countP (value : BitVec 64) (count : Nat) :
    value.cpopNatRec count 0 = (List.range count).countP fun bit ↦ value.getLsbD bit := by
  induction count with
  | zero => rfl
  | succ count ih =>
    rw [BitVec.cpopNatRec_succ, BitVec.cpopNatRec_add, ih, List.range_succ, List.countP_append,
      List.countP_singleton]
    cases value.getLsbD count <;> rfl

/-- The bits past the last byte of the map are clear, so only those in it can be set. -/
theorem setBits_eq_count (map : FreeMap) :
    map.setBits = (List.range (64 * wordCount map.sectors)).countP map.isUsed := by
  have hcover : 64 * wordCount map.sectors =
      8 * map.bytes.size + (64 * wordCount map.sectors - 8 * map.bytes.size) := by
    rw [map.size_bytes, wordCount]
    omega
  have hpast : (List.range (64 * wordCount map.sectors - 8 * map.bytes.size)).countP
      (map.isUsed ∘ (8 * map.bytes.size + ·)) = 0 := by
    rw [List.countP_eq_zero]
    intro bit _
    rw [Function.comp_apply, Bool.not_eq_true]
    apply not_isUsed_of_byteCount_le
    rw [map.size_bytes, byteCount]
    omega
  rw [setBits, sum_weight_eq_count, hcover, List.range_add, List.countP_append, List.countP_map,
    hpast, Nat.add_zero]
  rfl

theorem freeCount_eq_byWord (map : FreeMap) : map.freeCount = map.freeCountByWord := by
  have hclear (index : Nat) : (~~~map.word index).cpop.toNat =
      (List.range 64).countP fun bit ↦ !map.isUsed (64 * index + bit) := by
    rw [BitVec.toNat_cpop, cpopNatRec_eq_countP]
    apply List.countP_congr
    intro bit hbit
    rw [List.mem_range] at hbit
    rw [BitVec.getLsbD_not, decide_eq_true hbit, Bool.true_and, map.getLsbD_word hbit]
  have hcount : 64 * wordCount map.sectors = map.setBits +
      (List.range (64 * wordCount map.sectors)).countP fun sector ↦ !map.isUsed sector := by
    rw [setBits_eq_count]
    conv_lhs => rw [← List.length_range (n := 64 * wordCount map.sectors)]
    rw [List.length_eq_countP_add_countP map.isUsed]
    simp only [Bool.not_eq_true, Bool.decide_eq_false]
  have hround : map.sectors ≤ 64 * wordCount map.sectors := by
    rw [wordCount]
    omega
  rw [freeCountByWord, freeCount]
  simp only [hclear, sum_countP_blocks 64 _ fun sector ↦ !map.isUsed sector, Checked.sub]
  by_cases hfit : map.setBits ≤ map.sectors
  · rw [if_pos hfit, if_pos (by omega)]
    congr 1
    omega
  · rw [if_neg hfit, if_neg (by omega)]

/-! ## All of it -/

/-- What a map does is what its words do. -/
structure ByWords (map : FreeMap) : Prop where
  isUsed (sector : Nat) :
    map.isUsed sector = ((map.word (sector / 64) >>> (sector % 64)) &&& 1#64 == 1#64)
  mark {sector : Nat} (h : sector < map.sectors) (index : Nat) :
    (map.mark sector).word index =
      if index = sector / 64 then map.word index ||| 1#64 <<< (sector % 64) else map.word index
  clear {sector : Nat} (h : sector < map.sectors) (index : Nat) :
    (map.clear sector).word index =
      if index = sector / 64 then map.word index &&& ~~~(1#64 <<< (sector % 64))
      else map.word index
  firstFree : map.firstFree = map.firstFreeByWord
  freeCount : map.freeCount = map.freeCountByWord
  eq_of_word {other : FreeMap} (hsectors : map.sectors = other.sectors)
    (h : ∀ index < wordCount map.sectors, map.word index = other.word index) : map = other

theorem byWords (map : FreeMap) : map.ByWords where
  isUsed := map.isUsed_eq_shift
  mark h := word_mark h
  clear h := word_clear h
  firstFree := map.firstFree_eq_byWord
  freeCount := map.freeCount_eq_byWord
  eq_of_word := FreeMap.eq_of_word

end FreeMap

end SectorFS
