import SectorFS.FreeMap
import Mathlib.Algebra.GroupWithZero.Nat
import Mathlib.Data.List.Basic
import Mathlib.Data.List.Nodup
import Mathlib.Data.List.Sort
import Mathlib.Algebra.BigOperators.Group.List.Basic

/-!
# The map as a set

A map is determined by the set of its used bits. Allocation takes the head of the list
of free sectors, marking removes sectors from this list, and the free count is its
length. The count needs the spare bits of the last byte to be clear (`Clean`): a map
that started blank and was only marked on its own sectors is clean.
-/

namespace SectorFS.FreeMap

/-! ## Bits -/

/-- Maps over the same sectors with the same bits are equal. -/
theorem eq_of_isUsed {left right : FreeMap} (hsectors : left.sectors = right.sectors)
    (h : ∀ sector, left.isUsed sector = right.isUsed sector) : left = right := by
  obtain ⟨sectors, leftBytes, hleft⟩ := left
  obtain ⟨rightSectors, rightBytes, hright⟩ := right
  obtain rfl : sectors = rightSectors := hsectors
  have hbytes : leftBytes = rightBytes := by
    apply eq_of_byteAt (by rw [hleft, hright])
    intro offset _
    apply UInt8.toNat_inj.mp
    apply Nat.eq_of_testBit_eq
    intro bit
    by_cases hbit : bit < 8
    · have hsector := h (8 * offset + bit)
      unfold isUsed at hsector
      rwa [show (8 * offset + bit) / 8 = offset by omega,
        show (8 * offset + bit) % 8 = bit by omega] at hsector
    · have hhigh (byte : UInt8) : byte.toNat.testBit bit = false :=
        Nat.testBit_lt_two_pow (Nat.lt_of_lt_of_le byte.toNat_lt
          (Nat.pow_le_pow_right (by decide) (by omega)))
      rw [hhigh, hhigh]
  subst hbytes
  rfl

/-- The bits that name no sector are clear. -/
def Clean (map : FreeMap) : Prop := ∀ sector, map.sectors ≤ sector → map.isUsed sector = false

theorem isUsed_blank (sectors sector : Nat) : (blank sectors).isUsed sector = false := by
  rw [isUsed, blank, byteAt_zeroBytes]
  exact Nat.zero_testBit _

theorem clean_blank (sectors : Nat) : (blank sectors).Clean := fun sector _ ↦
  isUsed_blank sectors sector

/-! ## Several sectors at once -/

def markAll (map : FreeMap) (sectors : List Nat) : FreeMap := sectors.foldl mark map

def clearAll (map : FreeMap) (sectors : List Nat) : FreeMap := sectors.foldl clear map

theorem markAll_append (map : FreeMap) (first rest : List Nat) :
    map.markAll (first ++ rest) = (map.markAll first).markAll rest := List.foldl_append

theorem clearAll_append (map : FreeMap) (first rest : List Nat) :
    map.clearAll (first ++ rest) = (map.clearAll first).clearAll rest := List.foldl_append

@[simp] theorem sectors_mark (map : FreeMap) (sector : Nat) :
    (map.mark sector).sectors = map.sectors := sectors_updateByte _ _ _

@[simp] theorem sectors_clear (map : FreeMap) (sector : Nat) :
    (map.clear sector).sectors = map.sectors := sectors_updateByte _ _ _

@[simp] theorem sectors_markAll (map : FreeMap) (sectors : List Nat) :
    (map.markAll sectors).sectors = map.sectors := by
  induction sectors generalizing map with
  | nil => rfl
  | cons sector rest ih => exact (ih _).trans (sectors_mark map sector)

@[simp] theorem sectors_clearAll (map : FreeMap) (sectors : List Nat) :
    (map.clearAll sectors).sectors = map.sectors := by
  induction sectors generalizing map with
  | nil => rfl
  | cons sector rest ih => exact (ih _).trans (sectors_clear map sector)

theorem isUsed_markAll (map : FreeMap) {sectors : List Nat} (other : Nat)
    (h : ∀ sector ∈ sectors, sector < map.sectors) :
    (map.markAll sectors).isUsed other = (map.isUsed other || decide (other ∈ sectors)) := by
  induction sectors generalizing map with
  | nil => simp [markAll]
  | cons sector rest ih =>
    have hrest := ih (map.mark sector) fun entry hentry ↦ by
      rw [sectors_mark]
      exact h entry (List.mem_cons_of_mem _ hentry)
    show ((map.mark sector).markAll rest).isUsed other = _
    rw [hrest, isUsed_mark map other (h sector List.mem_cons_self), Bool.or_assoc]
    simp only [List.mem_cons, Bool.decide_or]

theorem isUsed_clearAll (map : FreeMap) {sectors : List Nat} (other : Nat)
    (h : ∀ sector ∈ sectors, sector < map.sectors) :
    (map.clearAll sectors).isUsed other = (map.isUsed other && !decide (other ∈ sectors)) := by
  induction sectors generalizing map with
  | nil => simp [clearAll]
  | cons sector rest ih =>
    have hrest := ih (map.clear sector) fun entry hentry ↦ by
      rw [sectors_clear]
      exact h entry (List.mem_cons_of_mem _ hentry)
    show ((map.clear sector).clearAll rest).isUsed other = _
    rw [hrest, isUsed_clear map other (h sector List.mem_cons_self), Bool.and_assoc]
    simp only [List.mem_cons, Bool.decide_or, Bool.not_or]

/-- Only which sectors are cleared matters, not in which order. -/
theorem clearAll_congr (map : FreeMap) {left right : List Nat}
    (hleft : ∀ sector ∈ left, sector < map.sectors) (h : ∀ sector, sector ∈ left ↔ sector ∈ right) :
    map.clearAll left = map.clearAll right := by
  apply eq_of_isUsed (by rw [sectors_clearAll, sectors_clearAll])
  intro sector
  rw [isUsed_clearAll map sector hleft,
    isUsed_clearAll map sector fun entry hentry ↦ hleft entry ((h entry).mpr hentry)]
  simp only [h]

theorem Clean.markAll {map : FreeMap} (hclean : map.Clean) {sectors : List Nat}
    (h : ∀ sector ∈ sectors, sector < map.sectors) : (map.markAll sectors).Clean := by
  intro sector hsector
  rw [sectors_markAll] at hsector
  rw [isUsed_markAll map sector h, hclean sector hsector, Bool.false_or, decide_eq_false]
  intro hmem
  exact absurd (h sector hmem) (by omega)

/-! ## The free sectors -/

/-- The free sectors, in order. -/
def free (map : FreeMap) : List Nat := (List.range map.sectors).filter fun sector ↦ !map.isUsed sector

theorem mem_free {map : FreeMap} {sector : Nat} :
    sector ∈ map.free ↔ sector < map.sectors ∧ map.isUsed sector = false := by
  simp [free]

theorem nodup_free (map : FreeMap) : map.free.Nodup := List.nodup_range.filter _

theorem lt_of_mem_take_free {map : FreeMap} {count : Nat} :
    ∀ sector ∈ map.free.take count, sector < map.sectors := fun _ hsector ↦
  (mem_free.mp (List.mem_of_mem_take hsector)).1

theorem free_markAll (map : FreeMap) {sectors : List Nat}
    (h : ∀ sector ∈ sectors, sector < map.sectors) :
    (map.markAll sectors).free = map.free.filter fun sector ↦ decide (sector ∉ sectors) := by
  rw [free, free, sectors_markAll, List.filter_filter]
  apply List.filter_congr
  intro sector _
  rw [isUsed_markAll map sector h, Bool.not_or, Bool.and_comm, decide_not]

/-- Claiming the first free sectors leaves the others. -/
theorem free_markAll_take (map : FreeMap) (count : Nat) :
    (map.markAll (map.free.take count)).free = map.free.drop count := by
  have hnodup := map.nodup_free
  have hall : map.free.take count ++ map.free.drop count = map.free := List.take_append_drop _ _
  rw [free_markAll map lt_of_mem_take_free]
  rw [← hall, List.nodup_append] at hnodup
  conv_lhs => rw [← hall]
  rw [List.filter_append, hall]
  rw [List.filter_eq_nil_iff.mpr fun sector hsector ↦ by simpa using hsector, List.nil_append]
  apply List.filter_eq_self.mpr
  intro sector hsector
  rw [decide_eq_true_iff]
  intro htaken
  exact hnodup.2.2 sector htaken sector hsector rfl

/-- A map that has given sectors back has as many more of them free. -/
theorem length_free_of_returned {map after : FreeMap} {returned : List Nat}
    (hsectors : after.sectors = map.sectors) (hnodup : returned.Nodup)
    (hlt : ∀ sector ∈ returned, sector < map.sectors)
    (hchanged : ∀ sector, after.isUsed sector ≠ map.isUsed sector ↔ sector ∈ returned)
    (hclear : ∀ sector ∈ returned, after.isUsed sector = false) :
    after.free.length = map.free.length + returned.length := by
  have hapart : ∀ sector ∈ map.free, ∀ other ∈ returned, sector ≠ other := by
    rintro sector hfree other hreturned rfl
    refine (hchanged sector).mpr hreturned ?_
    rw [hclear sector hreturned, (mem_free.mp hfree).2]
  have hall : (map.free ++ returned).Nodup :=
    List.nodup_append.mpr ⟨map.nodup_free, hnodup, hapart⟩
  have hperm : after.free.Perm (map.free ++ returned) := by
    refine (List.perm_ext_iff_of_nodup after.nodup_free hall).mpr fun sector ↦ ?_
    rw [List.mem_append, mem_free, mem_free, hsectors]
    by_cases hreturned : sector ∈ returned
    · simp only [hreturned, or_true, iff_true]
      exact ⟨hlt sector hreturned, hclear sector hreturned⟩
    · rw [not_not.mp (mt (hchanged sector).mp hreturned)]
      simp only [hreturned, or_false]
  rw [hperm.length_eq, List.length_append]

/-! ## First fit -/

theorem lowestClear_spec {byte : UInt8} (h : byte ≠ 0xff) :
    lowestClear byte < 8 ∧ byte.toNat.testBit (lowestClear byte) = false ∧
      ∀ bit < lowestClear byte, byte.toNat.testBit bit = true := by
  have hexists : ∃ bit ∈ List.range 8, (!byte.toNat.testBit bit) = true := by
    by_contra hnone
    simp only [List.mem_range, Bool.not_eq_true', not_exists, not_and, Bool.not_eq_false] at hnone
    apply h
    apply UInt8.toNat_inj.mp
    apply Nat.eq_of_testBit_eq
    intro bit
    have hfull : (0xff : UInt8).toNat = 2 ^ 8 - 1 := rfl
    rw [hfull, Nat.testBit_two_pow_sub_one]
    by_cases hbit : bit < 8
    · rw [hnone bit hbit, decide_eq_true hbit]
    · rw [decide_eq_false hbit]
      exact Nat.testBit_lt_two_pow (Nat.lt_of_lt_of_le byte.toNat_lt
        (Nat.pow_le_pow_right (by decide) (by omega)))
  have hlt : (List.range 8).findIdx (fun bit ↦ !byte.toNat.testBit bit) < (List.range 8).length :=
    List.findIdx_lt_length_of_exists hexists
  refine ⟨by simpa [lowestClear] using hlt, ?_, fun bit hbit ↦ ?_⟩
  · have hfound := List.findIdx_getElem (w := hlt)
    rw [List.getElem_range] at hfound
    simpa [lowestClear] using hfound
  · have hbefore := List.not_of_lt_findIdx (show bit < (List.range 8).findIdx _ from hbit)
    rw [List.getElem_range] at hbefore
    simpa using hbefore

/-- The bit of a sector in raw bytes. -/
def bitAt (bytes : ByteArray) (sector : Nat) : Bool :=
  (byteAt bytes (sector / 8)).toNat.testBit (sector % 8)

theorem bitAt_full {bytes : ByteArray} {index sector : Nat} (h : byteAt bytes index = 0xff)
    (hsector : sector / 8 = index) : bitAt bytes sector = true := by
  have hfull : (0xff : UInt8).toNat = 2 ^ 8 - 1 := rfl
  rw [bitAt, hsector, h, hfull, Nat.testBit_two_pow_sub_one, decide_eq_true_iff]
  omega

/-- What the search passes over is set, and what it finds is clear. -/
theorem lowestClearFrom_spec (bytes : ByteArray) (index : Nat) :
    match lowestClearFrom bytes index with
    | some found => 8 * index ≤ found ∧ bitAt bytes found = false ∧
        ∀ sector, 8 * index ≤ sector → sector < found → bitAt bytes sector = true
    | none => ∀ sector, 8 * index ≤ sector → sector < 8 * bytes.size →
        bitAt bytes sector = true := by
  fun_induction lowestClearFrom bytes index with
  | case1 index hindex hfull ih =>
    have hskip (sector : Nat) (hle : 8 * index ≤ sector) (hlt : sector < 8 * (index + 1)) :
        bitAt bytes sector = true :=
      bitAt_full (by rw [byteAt_of_lt hindex, hfull]) (by omega : sector / 8 = index)
    cases hfound : lowestClearFrom bytes (index + 1) with
    | none =>
      rw [hfound] at ih
      intro sector hle hlt
      by_cases hsector : sector < 8 * (index + 1)
      · exact hskip sector hle hsector
      · exact ih sector (by omega) hlt
    | some found =>
      rw [hfound] at ih
      refine ⟨by omega, ih.2.1, fun sector hle hlt ↦ ?_⟩
      by_cases hsector : sector < 8 * (index + 1)
      · exact hskip sector hle hsector
      · exact ih.2.2 sector (by omega) hlt
  | case2 index hindex hfree =>
    obtain ⟨hlt, hclear, hbelow⟩ := lowestClear_spec hfree
    refine ⟨by omega, ?_, fun sector hle hsector ↦ ?_⟩
    · rw [bitAt, show (8 * index + lowestClear bytes[index]) / 8 = index by omega,
        show (8 * index + lowestClear bytes[index]) % 8 = lowestClear bytes[index] by omega,
        byteAt_of_lt hindex, hclear]
    · rw [bitAt, show sector / 8 = index by omega, byteAt_of_lt hindex]
      exact hbelow (sector % 8) (by omega)
  | case3 index hindex =>
    intro sector hle hlt
    omega

/-- A sector that is free, and below which none is, is the head of the free sectors. -/
theorem head?_free {map : FreeMap} {found : Nat} (hfound : found ∈ map.free)
    (h : ∀ sector < found, map.isUsed sector = true) : map.free.head? = some found := by
  obtain ⟨hlt, hclear⟩ := mem_free.mp hfound
  have hsplit : List.range map.sectors =
      List.range found ++ (found :: (List.range (map.sectors - found - 1)).map (found + 1 + ·)) := by
    have hcount : map.sectors = found + (1 + (map.sectors - found - 1)) := by omega
    conv_lhs => rw [hcount, List.range_add, List.range_add]
    simp [Nat.add_assoc]
  rw [free, hsplit, List.filter_append, List.filter_eq_nil_iff.mpr, List.nil_append,
    List.filter_cons_of_pos (by simp [hclear])]
  · rfl
  · intro sector hsector
    rw [List.mem_range] at hsector
    simp [h sector hsector]

/-- Where all sectors are in use, none is the first free one. -/
theorem head?_free_of_used {map : FreeMap} (h : ∀ sector < map.sectors, map.isUsed sector = true) :
    map.free.head? = none := by
  rw [List.head?_eq_none_iff, List.eq_nil_iff_forall_not_mem]
  intro sector hsector
  obtain ⟨hlt, hclear⟩ := mem_free.mp hsector
  rw [h sector hlt] at hclear
  contradiction

/-- The lowest clear bit is that of the first free sector, if it names one. -/
theorem head?_free_of_below {map : FreeMap} {found : Nat} (hclear : map.isUsed found = false)
    (h : ∀ sector < found, map.isUsed sector = true) :
    map.free.head? = (some found).filter (· < map.sectors) := by
  by_cases hlt : found < map.sectors
  · rw [Option.filter_some, if_pos (by simpa using hlt)]
    exact head?_free (mem_free.mpr ⟨hlt, hclear⟩) h
  · rw [Option.filter_some, if_neg (by simpa using hlt)]
    exact head?_free_of_used fun sector hsector ↦ h sector (by omega)

/-- The search finds the first free sector. -/
theorem firstFree_eq_head? (map : FreeMap) : map.firstFree = map.free.head? := by
  have hspec := lowestClearFrom_spec map.bytes 0
  have hcover : map.sectors ≤ 8 * map.bytes.size := by
    rw [map.size_bytes]
    omega
  rw [firstFree]
  cases hfound : lowestClearFrom map.bytes 0 with
  | none =>
    rw [hfound] at hspec
    exact (head?_free_of_used fun sector hsector ↦ hspec sector (by omega) (by omega)).symm
  | some found =>
    rw [hfound] at hspec
    obtain ⟨-, hclear, hbelow⟩ := hspec
    exact (head?_free_of_below hclear fun sector hsector ↦ hbelow sector (by omega) hsector).symm

/-! ## Counting -/

/-- The weight of a byte is the number of its set bits. -/
theorem weight_eq_count (byte : UInt8) :
    weight byte = (List.range 8).countP fun bit ↦ byte.toNat.testBit bit := by
  have hrange : List.range 8 = [0, 1, 2, 3, 4, 5, 6, 7] := rfl
  have hdigit (value : Nat) : (if value % 2 = 1 then 1 else 0) = value % 2 := by split <;> omega
  simp only [hrange, List.countP_cons, List.countP_nil, Nat.testBit_eq_decide_div_mod_eq,
    decide_eq_true_eq, hdigit, Nat.reducePow, Nat.div_one, weight]
  omega

/-- Counting block by block is counting all at once. -/
theorem sum_countP_blocks (width count : Nat) (p : Nat → Bool) :
    ((List.range count).map fun index ↦ (List.range width).countP fun place ↦
        p (width * index + place)).sum = (List.range (width * count)).countP p := by
  induction count with
  | zero => rfl
  | succ count ih =>
    rw [List.range_succ, List.map_append, List.sum_append, ih, Nat.mul_add, Nat.mul_one,
      List.range_add, List.countP_append, List.countP_map, List.map_singleton, List.sum_singleton]
    rfl

/-- The number of bits set in the first bytes, counted sector by sector. -/
theorem sum_weight_eq_count (bytes : ByteArray) (count : Nat) :
    ((List.range count).map fun index ↦ weight (byteAt bytes index)).sum =
      (List.range (8 * count)).countP (bitAt bytes) := by
  rw [← sum_countP_blocks 8 count (bitAt bytes)]
  congr 1
  apply List.map_congr_left
  intro index _
  rw [weight_eq_count]
  apply List.countP_congr
  intro bit hbit
  rw [List.mem_range] at hbit
  rw [bitAt, show (8 * index + bit) / 8 = index by omega, show (8 * index + bit) % 8 = bit by omega]

/-- In a clean map the set bits are those of the sectors in use. -/
theorem Clean.setBits_eq {map : FreeMap} (hclean : map.Clean) :
    map.setBits = (List.range map.sectors).countP map.isUsed := by
  have hcover : 8 * map.bytes.size = map.sectors + (8 * map.bytes.size - map.sectors) := by
    rw [map.size_bytes]
    omega
  rw [setBits, sum_weight_eq_count, hcover, List.range_add, List.countP_append, List.countP_map]
  have hspare : (List.range (8 * map.bytes.size - map.sectors)).countP
      (bitAt map.bytes ∘ (map.sectors + ·)) = 0 := by
    rw [List.countP_eq_zero]
    intro bit _
    rw [Function.comp_apply, Bool.not_eq_true]
    exact hclean (map.sectors + bit) (Nat.le_add_right _ _)
  rw [hspare, Nat.add_zero]
  rfl

theorem Clean.freeCount_eq {map : FreeMap} (hclean : map.Clean) :
    map.freeCount = .ok map.free.length := by
  have hcount : map.sectors = map.setBits + map.free.length := by
    rw [hclean.setBits_eq, free, ← List.countP_eq_length_filter]
    conv_lhs => rw [← List.length_range (n := map.sectors)]
    rw [List.length_eq_countP_add_countP map.isUsed]
    simp only [Bool.not_eq_true, Bool.decide_eq_false]
  rw [freeCount, Checked.sub_eq_ok (by omega)]
  congr 1
  omega

/-! ## The stored form -/

/-- A map is read back from its own bytes. -/
@[simp] theorem ofBytes_bytes (map : FreeMap) : ofBytes map.sectors map.bytes = map := by
  obtain ⟨sectors, bytes, hsize⟩ := map
  have hbytes : (⟨Array.ofFn fun index : Fin (byteCount sectors) ↦ byteAt bytes index⟩ : ByteArray) =
      bytes := by
    apply eq_of_byteAt
    · rw [hsize]
      exact Array.size_ofFn
    · intro offset hoffset
      rw [byteAt_of_lt hoffset, ByteArray.getElem_eq_getElem_data]
      simp
  unfold ofBytes
  congr

theorem sectors_ofBytes (sectors : Nat) (content : ByteArray) :
    (ofBytes sectors content).sectors = sectors := rfl

/-- Sectors for which the map has no byte are not in use. -/
theorem not_isUsed_of_byteCount_le {map : FreeMap} {sector : Nat}
    (h : byteCount map.sectors ≤ sector / 8) : map.isUsed sector = false := by
  rw [isUsed, byteAt_of_size_le (by rw [map.size_bytes]; exact h)]
  exact Nat.zero_testBit _

theorem isUsed_ofBytes {sectors : Nat} {content : ByteArray} {sector : Nat}
    (h : sector / 8 < byteCount sectors) :
    (ofBytes sectors content).isUsed sector = bitAt content sector := by
  have hsize : sector / 8 < (ofBytes sectors content).bytes.size := by
    rw [(ofBytes sectors content).size_bytes]
    exact h
  rw [isUsed, bitAt, byteAt_of_lt hsize, ByteArray.getElem_eq_getElem_data]
  simp [ofBytes]

end SectorFS.FreeMap
