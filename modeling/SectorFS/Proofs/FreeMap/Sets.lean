import SectorFS.Proofs.FreeMap.Words
import SectorFS.Proofs.Space
import Mathlib.Data.Finset.Card
import Mathlib.Order.Bounds.Basic

/-!
# The map of free sectors as a finite set

A map that started blank stands for the set of its sectors in use: marking inserts, clearing
erases, and claiming inserts the least sector that the set leaves out. `performAll_create` follows
the set along any sequence of these calls and says what can be seen of the map at its end. It asks
nothing of the sectors but that their number can be rounded up to whole words.
-/

namespace SectorFS.FreeMap

/-! ## Sets of sectors -/

/-- The least of the first sectors that a set leaves out. -/
def leastOutside (sectors : Nat) (used : Finset Nat) : Option Nat :=
  (List.range sectors).find? fun sector ↦ decide (sector ∉ used)

theorem leastOutside_eq_some_iff {sectors sector : Nat} {used : Finset Nat} :
    leastOutside sectors used = some sector ↔
      IsLeast {other | other < sectors ∧ other ∉ used} sector := by
  rw [leastOutside, List.find?_range_eq_some]
  constructor
  · rintro ⟨hout, hlt, hbelow⟩
    refine ⟨⟨List.mem_range.mp hlt, by simpa using hout⟩, fun other hother ↦ ?_⟩
    by_contra hless
    have hin := hbelow other (by omega)
    simp [hother.2] at hin
  · rintro ⟨⟨hlt, hout⟩, hleast⟩
    refine ⟨by simpa using hout, List.mem_range.mpr hlt, fun other hother ↦ ?_⟩
    by_contra hin
    have hle := hleast ⟨hother.trans hlt, by simpa using hin⟩
    omega

/-- Where a set leaves none out, it is that of all sectors. -/
theorem leastOutside_eq_none_iff {sectors : Nat} {used : Finset Nat}
    (hwithin : ∀ sector ∈ used, sector < sectors) :
    leastOutside sectors used = none ↔ used = Finset.range sectors := by
  rw [leastOutside, List.find?_eq_none]
  constructor
  · intro hall
    ext sector
    rw [Finset.mem_range]
    exact ⟨hwithin sector, fun hlt ↦ by simpa using hall sector (List.mem_range.mpr hlt)⟩
  · rintro rfl sector hsector
    simpa using hsector

/-! ## Calls -/

/-- What changes a map. -/
inductive Call where
  | mark (sector : Nat)
  | clear (sector : Nat)
  | claim

namespace Call

def perform : Call → Allocation (Option Nat)
  | mark sector => do
    Space.mark sector
    return none
  | clear sector => do
    Space.clear sector
    return none
  | claim => Space.claim?

/-- Only sectors that the map covers are marked and cleared. -/
def Within (sectors : Nat) : Call → Prop
  | mark sector => sector < sectors
  | clear sector => sector < sectors
  | claim => True

instance (sectors : Nat) (call : Call) : Decidable (call.Within sectors) :=
  match call with
  | mark sector => inferInstanceAs (Decidable (sector < sectors))
  | clear sector => inferInstanceAs (Decidable (sector < sectors))
  | claim => inferInstanceAs (Decidable True)

/-- The answer by the set of the sectors in use. -/
def answer (sectors : Nat) (used : Finset Nat) : Call → Option Nat
  | mark _ => none
  | clear _ => none
  | claim => leastOutside sectors used

/-- The set that a call leaves. -/
def leaves (sectors : Nat) (used : Finset Nat) : Call → Finset Nat
  | mark sector => insert sector used
  | clear sector => used.erase sector
  | claim => (leastOutside sectors used).elim used (insert · used)

end Call

/-- The answers of all calls, one after the other. -/
def performAll (calls : List Call) : Allocation (List (Option Nat)) := calls.mapM Call.perform

/-- The answers of a sequence of calls by the set that they start from. -/
def answers (sectors : Nat) : Finset Nat → List Call → List (Option Nat)
  | _, [] => []
  | used, call :: rest => call.answer sectors used :: answers sectors (call.leaves sectors used) rest

/-- The set that a sequence of calls leaves. -/
def leftBy (sectors : Nat) (used : Finset Nat) (calls : List Call) : Finset Nat :=
  calls.foldl (Call.leaves sectors) used

/-! ## Maps that stand for sets -/

/-- The set bits of a map are those of a set of its sectors. -/
structure StandsFor (map : FreeMap) (sectors : Nat) (used : Finset Nat) : Prop where
  sectors_eq : map.sectors = sectors
  within : ∀ sector ∈ used, sector < sectors
  isUsed_eq (sector : Nat) : map.isUsed sector = decide (sector ∈ used)

theorem standsFor_blank (sectors : Nat) : (blank sectors).StandsFor sectors ∅ where
  sectors_eq := rfl
  within := by simp
  isUsed_eq sector := by simp [isUsed_blank]

namespace StandsFor

variable {map other : FreeMap} {sectors sector : Nat} {used others : Finset Nat}

theorem clean (h : map.StandsFor sectors used) : map.Clean := by
  intro sector hsector
  rw [h.isUsed_eq, decide_eq_false]
  intro hmem
  have hlt := h.within sector hmem
  rw [h.sectors_eq] at hsector
  omega

theorem mark (h : map.StandsFor sectors used) (hsector : sector < sectors) :
    (map.mark sector).StandsFor sectors (insert sector used) where
  sectors_eq := by rw [sectors_mark, h.sectors_eq]
  within := by
    intro entry hentry
    obtain rfl | hentry := Finset.mem_insert.mp hentry
    · exact hsector
    · exact h.within entry hentry
  isUsed_eq entry := by
    rw [isUsed_mark map entry (by rwa [h.sectors_eq]), h.isUsed_eq, ← Bool.decide_or]
    simp only [Finset.mem_insert, or_comm]

theorem clear (h : map.StandsFor sectors used) (hsector : sector < sectors) :
    (map.clear sector).StandsFor sectors (used.erase sector) where
  sectors_eq := by rw [sectors_clear, h.sectors_eq]
  within entry hentry := h.within entry (Finset.mem_of_mem_erase hentry)
  isUsed_eq entry := by
    rw [isUsed_clear map entry (by rwa [h.sectors_eq]), h.isUsed_eq, ← decide_not,
      ← Bool.decide_and]
    simp only [Finset.mem_erase, and_comm, ne_eq]

theorem free_eq (h : map.StandsFor sectors used) :
    map.free = (List.range sectors).filter fun sector ↦ decide (sector ∉ used) := by
  rw [free, h.sectors_eq]
  simp only [h.isUsed_eq, decide_not]

/-- The search finds the least sector outside the set. -/
theorem firstFree_eq (h : map.StandsFor sectors used) :
    map.firstFree = leastOutside sectors used := by
  rw [firstFree_eq_head?, h.free_eq, leastOutside, List.head?_filter]

/-- The sectors outside the set are counted. -/
theorem freeCount_eq (h : map.StandsFor sectors used) :
    used.card ≤ sectors ∧ map.freeCount = .ok (sectors - used.card) := by
  have hsubset : used ⊆ Finset.range sectors := fun sector hsector ↦
    Finset.mem_range.mpr (h.within sector hsector)
  have hcard : map.free.length = sectors - used.card := by
    rw [h.free_eq]
    calc ((List.range sectors).filter fun sector ↦ decide (sector ∉ used)).length
        = ((List.range sectors).filter fun sector ↦ decide (sector ∉ used)).toFinset.card :=
          (List.toFinset_card_of_nodup (List.nodup_range.filter _)).symm
      _ = (Finset.range sectors \ used).card := by
          congr 1
          ext sector
          simp
      _ = sectors - used.card := by
          rw [Finset.card_sdiff_of_subset hsubset, Finset.card_range]
  refine ⟨by simpa using Finset.card_le_card hsubset, ?_⟩
  rw [h.clean.freeCount_eq, hcard]

/-- Maps over the same sectors are equal exactly if their sets are. -/
theorem eq_iff (h : map.StandsFor sectors used) (hother : other.StandsFor sectors others) :
    map = other ↔ used = others := by
  constructor
  · rintro rfl
    ext sector
    have hsame := (h.isUsed_eq sector).symm.trans (hother.isUsed_eq sector)
    simpa using hsame
  · rintro rfl
    refine eq_of_isUsed (h.sectors_eq.trans hother.sectors_eq.symm) fun sector ↦ ?_
    rw [h.isUsed_eq, hother.isUsed_eq]

/-! ## Calls on a map that stands for a set -/

theorem covers (h : map.StandsFor sectors used) (hsector : sector < sectors) :
    map.covers sector = .ok () := by
  rw [FreeMap.covers, if_pos (by rwa [h.sectors_eq])]

/-- The least sector outside the set is claimed, if there is one. -/
theorem claim?_eq (h : map.StandsFor sectors used) (drive : Drive) :
    ∃ next : FreeMap, Space.claim? ⟨drive, map⟩ = .ok (leastOutside sectors used) ⟨drive, next⟩ ∧
      next.StandsFor sectors ((leastOutside sectors used).elim used (insert · used)) ∧
      (leastOutside sectors used = none → next = map) := by
  rw [Space.claim?]
  simp only [h.firstFree_eq]
  cases hleast : leastOutside sectors used with
  | none => exact ⟨map, rfl, h, fun _ ↦ rfl⟩
  | some sector =>
    exact ⟨map.mark sector, rfl, h.mark (leastOutside_eq_some_iff.mp hleast).1.1, by simp⟩

theorem perform (h : map.StandsFor sectors used) (drive : Drive) {call : Call}
    (hcall : call.Within sectors) :
    ∃ next : FreeMap, call.perform ⟨drive, map⟩ = .ok (call.answer sectors used) ⟨drive, next⟩ ∧
      next.StandsFor sectors (call.leaves sectors used) := by
  cases call with
  | mark sector =>
    refine ⟨map.mark sector, ?_, h.mark hcall⟩
    show EStateM.bind (Space.mark sector) _ _ = _
    simp only [EStateM.bind, Space.mark, h.covers hcall]
    rfl
  | clear sector =>
    refine ⟨map.clear sector, ?_, h.clear hcall⟩
    show EStateM.bind (Space.clear sector) _ _ = _
    simp only [EStateM.bind, Space.clear, h.covers hcall]
    rfl
  | claim =>
    obtain ⟨next, hrun, hnext, -⟩ := h.claim?_eq drive
    exact ⟨next, hrun, hnext⟩

theorem performAll (h : map.StandsFor sectors used) (drive : Drive) {calls : List Call}
    (hcalls : ∀ call ∈ calls, call.Within sectors) :
    ∃ next : FreeMap,
      performAll calls ⟨drive, map⟩ = .ok (answers sectors used calls) ⟨drive, next⟩ ∧
      next.StandsFor sectors (leftBy sectors used calls) := by
  induction calls generalizing map used with
  | nil => exact ⟨map, rfl, h⟩
  | cons call rest ih =>
    obtain ⟨reached, hfirst, hreached⟩ := h.perform drive (hcalls call List.mem_cons_self)
    obtain ⟨next, hrest, hnext⟩ := ih hreached fun other hother ↦
      hcalls other (List.mem_cons_of_mem _ hother)
    refine ⟨next, ?_, hnext⟩
    rw [FreeMap.performAll] at hrest ⊢
    rw [List.mapM_cons, bind_of_ok hfirst, bind_of_ok hrest]
    rfl

end StandsFor

/-! ## What can be seen of a map -/

/-- A map answers as the set of its sectors in use does. -/
structure ActsAs (map : FreeMap) (sectors : Nat) (used : Finset Nat) : Prop where
  /-- A sector tests as used exactly if it is in the set. -/
  test_eq : ∀ sector < sectors, map.test sector = .ok (decide (sector ∈ used))
  /-- The bits of the last word that name no sector are clear. -/
  padding : ∀ index, ∀ bit < 64, sectors ≤ 64 * index + bit → (map.word index).getLsbD bit = false
  /-- The sectors outside the set are counted without falling below zero. -/
  freeCount_eq : used.card ≤ sectors ∧ map.freeCount = .ok (sectors - used.card)
  /-- The least sector outside the set is claimed, and nothing else changes. -/
  claims : used ≠ Finset.range sectors → ∀ drive, ∃ (sector : Nat) (next : FreeMap),
    Space.claim? ⟨drive, map⟩ = .ok (some sector) ⟨drive, next⟩ ∧
      IsLeast {other | other < sectors ∧ other ∉ used} sector ∧
      next.sectors = sectors ∧ ∀ bit, next.isUsed bit = decide (bit ∈ insert sector used)
  /-- A full map claims nothing and stays as it is. -/
  refuses : used = Finset.range sectors → ∀ drive,
    Space.claim? ⟨drive, map⟩ = .ok none ⟨drive, map⟩
  /-- All of this is what whole words of the map do. -/
  byWords : map.ByWords

theorem StandsFor.actsAs {map : FreeMap} {sectors : Nat} {used : Finset Nat}
    (h : map.StandsFor sectors used) : map.ActsAs sectors used where
  test_eq sector hsector := by
    rw [test, h.covers hsector, h.isUsed_eq]
    rfl
  padding index bit hbit hpast := by
    rw [map.getLsbD_word hbit]
    exact h.clean _ (by rwa [h.sectors_eq])
  freeCount_eq := h.freeCount_eq
  claims hopen drive := by
    obtain ⟨next, hrun, hnext, -⟩ := h.claim?_eq drive
    obtain ⟨sector, hleast⟩ := Option.ne_none_iff_exists'.mp
      (mt (leastOutside_eq_none_iff h.within).mp hopen)
    rw [hleast] at hrun hnext
    exact ⟨sector, next, hrun, leastOutside_eq_some_iff.mp hleast, hnext.sectors_eq,
      hnext.isUsed_eq⟩
  refuses hfull drive := by
    have hnone := (leastOutside_eq_none_iff h.within).mpr hfull
    obtain ⟨next, hrun, -, hsame⟩ := h.claim?_eq drive
    rw [hrun, hnone, hsame hnone]
  byWords := map.byWords

/-- From a blank map on, calls on covered sectors answer as on the set of the sectors in use, the
map that they leave acts as the set that they leave, and maps are equal exactly if their sets
are. -/
theorem performAll_create {sectors : Nat} (hsectors : sectors + 63 < Checked.wordLimit)
    (drive : Drive) (calls : List Call) (hcalls : ∀ call ∈ calls, call.Within sectors) :
    ∃ start map : FreeMap, create sectors = .ok start ∧
      performAll calls ⟨drive, start⟩ = .ok (answers sectors ∅ calls) ⟨drive, map⟩ ∧
      map.ActsAs sectors (leftBy sectors ∅ calls) ∧
      ∀ others : List Call, (∀ call ∈ others, call.Within sectors) → ∃ other : FreeMap,
        performAll others ⟨drive, start⟩ = .ok (answers sectors ∅ others) ⟨drive, other⟩ ∧
        (map = other ↔ leftBy sectors ∅ calls = leftBy sectors ∅ others) := by
  obtain ⟨map, hrun, hmap⟩ := (standsFor_blank sectors).performAll drive hcalls
  refine ⟨blank sectors, map, ?_, hrun, hmap.actsAs, fun others hothers ↦ ?_⟩
  · rw [create, Checked.add_eq_ok hsectors]
    rfl
  · obtain ⟨other, hother, hstands⟩ := (standsFor_blank sectors).performAll drive hothers
    exact ⟨other, hother, hmap.eq_iff hstands⟩

/-- Three sectors: the last one is marked, the others are claimed, and one that was cleared is
claimed again. The same set is reached by marking all three. -/
theorem performAll_create_three :
    ∃ start map : FreeMap, create 3 = .ok start ∧
      performAll [.claim, .mark 2, .claim, .claim, .clear 1, .claim] ⟨default, start⟩ =
        .ok [some 0, none, some 1, none, none, some 1] ⟨default, map⟩ ∧
      map.freeCount = .ok 0 ∧ Space.claim? ⟨default, map⟩ = .ok none ⟨default, map⟩ ∧
      ∃ answers,
        performAll [.mark 2, .mark 1, .mark 0] ⟨default, start⟩ = .ok answers ⟨default, map⟩ := by
  obtain ⟨start, map, hcreate, hrun, hacts, hsame⟩ :=
    performAll_create (show 3 + 63 < Checked.wordLimit by decide) default
      [.claim, .mark 2, .claim, .claim, .clear 1, .claim] (by decide)
  obtain ⟨other, hother, hiff⟩ := hsame [.mark 2, .mark 1, .mark 0] (by decide)
  have hfull : leftBy 3 ∅ [.claim, .mark 2, .claim, .claim, .clear 1, .claim] = Finset.range 3 := by
    decide
  obtain rfl : map = other := hiff.mpr (by decide)
  have hcount := hacts.freeCount_eq.2
  rw [hfull, Finset.card_range] at hcount
  exact ⟨start, map, hcreate, hrun, hcount, hacts.refuses hfull default, _, hother⟩

end SectorFS.FreeMap
