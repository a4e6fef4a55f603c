import SectorFS.Directory.Tree
import SectorFS.Volume.Removal
import SectorFS.Proofs.Index.Release
import SectorFS.Proofs.Resolution

/-!
# Releasing what is below a place

Releasing an entry clears the sectors that belong to its place and to the places below it,
and no others, whatever the shape of the directories there. A directory that is met lies one
place further down than the one before, and no place is longer than the disk has sectors,
so the descent ends before its bound.
-/

namespace SectorFS

open SectorFS.Geometry

variable {image : Image} {sectors : Nat} {map : FreeMap}

/-! ## The sectors of a tree -/

/-- The sectors of what a target leads to, `fuel` directories deep. -/
def Image.treeSectors (image : Image) : (fuel : Nat) → Target → List Nat
  | 0, _ => []
  | fuel + 1, target =>
    (if target.isDirectory then
      (image.table target.sector).entries.flatMap fun entry ↦
        image.treeSectors fuel ⟨entry.sector.toNat, entry.isDirectory⟩
    else []) ++ image.extent target.sector

theorem Directory.mem_entries {directory : Directory} {entry : Entry} :
    entry ∈ directory.entries ↔
      ∃ index : Fin entryCount, directory.table[index] = entry ∧ entry.inUse = true := by
  rw [entries, List.mem_filter, Vector.mem_toList_iff, Vector.mem_iff_getElem]
  constructor
  · rintro ⟨⟨index, hindex, rfl⟩, huse⟩
    exact ⟨⟨index, hindex⟩, rfl, huse⟩
  · rintro ⟨index, rfl, huse⟩
    exact ⟨⟨index, index.isLt, rfl⟩, huse⟩

namespace Image

/-- Entries in use are the places one further down. -/
theorem exists_entry_iff {place : Place} {sector : Nat} {target : Target}
    (hplace : image.targetAt place = some ⟨sector, true⟩) :
    (∃ entry ∈ (image.table sector).entries, target = ⟨entry.sector.toNat, entry.isDirectory⟩) ↔
      ∃ index, image.targetAt (index :: place) = some target := by
  constructor
  · rintro ⟨entry, hentry, rfl⟩
    obtain ⟨index, rfl, huse⟩ := Directory.mem_entries.mp hentry
    exact ⟨index, by rw [targetAt_cons_of_directory hplace, child?, if_pos huse]⟩
  · rintro ⟨index, hindex⟩
    rw [targetAt_cons_of_directory hplace, child?] at hindex
    split at hindex
    · rename_i huse
      exact ⟨_, Directory.mem_entries.mpr ⟨index, rfl, huse⟩, (Option.some.inj hindex).symm⟩
    · contradiction

/-- The sectors of a tree are those that belong to its place and the places below. -/
theorem mem_treeSectors (h : image.Sound sectors) {fuel : Nat} {place : Place} {target : Target}
    (hplace : image.targetAt place = some target) (hfuel : sectors < place.length + fuel)
    {sector : Nat} :
    sector ∈ image.treeSectors fuel target ↔
      ∃ other, place <:+ other ∧ image.Owns (.item other) sector := by
  induction fuel generalizing place target with
  | zero => exact absurd (h.length_place_lt hplace) (by omega)
  | succ fuel ih =>
    rw [treeSectors, List.mem_append]
    constructor
    · rintro (hbelow | hself)
      · obtain ⟨top, isDirectory⟩ := target
        cases isDirectory with
        | false => exact absurd hbelow List.not_mem_nil
        | true =>
          rw [if_pos rfl, List.mem_flatMap] at hbelow
          obtain ⟨entry, hentry, hmem⟩ := hbelow
          obtain ⟨index, hindex⟩ := (exists_entry_iff hplace).mp ⟨entry, hentry, rfl⟩
          obtain ⟨other, hsuffix, howns⟩ :=
            (ih hindex (by rw [List.length_cons]; omega)).mp hmem
          exact ⟨other, (List.suffix_cons index place).trans hsuffix, howns⟩
      · exact ⟨place, List.suffix_refl _, target.sector, headOf_item hplace, hself⟩
    · rintro ⟨other, ⟨below, rfl⟩, head, hhead, hmem⟩
      obtain ⟨met, hmet, rfl⟩ := Option.map_eq_some_iff.mp hhead
      cases below using List.reverseRecOn with
      | nil =>
        rw [List.nil_append, hplace] at hmet
        obtain rfl := Option.some.inj hmet
        exact .inr hmem
      | append_singleton below index =>
        left
        rw [List.append_assoc, List.singleton_append] at hmet
        obtain ⟨upper, hupper, -⟩ := exists_targetAt_of_append hmet
        obtain ⟨top, htop, -⟩ := targetAt_cons.mp hupper
        obtain rfl := Option.some.inj (hplace.symm.trans htop)
        obtain ⟨entry, hentry, rfl⟩ := (exists_entry_iff hplace).mpr ⟨index, hupper⟩
        rw [if_pos rfl, List.mem_flatMap]
        refine ⟨entry, hentry, (ih hupper (by rw [List.length_cons]; omega)).mpr ?_⟩
        exact ⟨below ++ (index :: place), List.suffix_append _ _, _, headOf_item hmet, hmem⟩

theorem treeSectors_lt (h : image.Sound sectors) {fuel : Nat} {place : Place} {target : Target}
    (hplace : image.targetAt place = some target) (hfuel : sectors < place.length + fuel) :
    ∀ sector ∈ image.treeSectors fuel target, sector < sectors := by
  intro sector hsector
  obtain ⟨other, -, howns⟩ := (mem_treeSectors h hplace hfuel).mp hsector
  exact h.lt_of_owns howns

end Image

/-! ## Releasing one file -/

/-- Releasing a file clears its sectors. -/
theorem Volume.releaseFile_performs {sector : Nat} {node : Node}
    (hintact : image.Intact sectors sector node) (hword : sectors < 2 ^ 32)
    (hmap : map.sectors = sectors) :
    Performs ((releaseFile sector).using map) image sectors
      (.ok ((), map.clearAll (image.extent sector))) [] := by
  have hlt := hintact.self_lt
  have hdepth : node.height.val < 4 := node.height.isLt
  have hextent (member : Nat) (hmember : member ∈ image.extent sector) : member < map.sectors :=
    hmap ▸ hintact.lt member hmember
  rw [hintact.extent_eq] at hextent ⊢
  refine (Performs.usingLift (Node.fetch_performs hintact.node_eq hlt (by omega))).usingStep ?_
  refine (Node.release_performs hintact.formed hintact.le_capacity (by omega)
    (fun _ hmember ↦ hintact.inner_lt hmember)
    fun member hmember ↦ hextent member (List.mem_cons_of_mem _ hmember)).usingStep ?_
  rw [← FreeMap.clear_clearAll hextent]
  refine Performs.clear ?_
  rw [FreeMap.sectors_clearAll, hmap]
  exact hlt

/-! ## Releasing entries -/

namespace Directory

theorem releaseEntriesWithin_succ (fuel : Nat) (entries : List Entry) :
    releaseEntriesWithin (fuel + 1) entries = entries.forM (fun entry ↦ do
      if entry.isDirectory then
        let nested ← load entry.sector.toNat
        releaseEntriesWithin fuel nested.entries
      Volume.releaseFile entry.sector.toNat) := rfl

/-- The descent releases the tree of each entry before the next one. -/
theorem releaseEntriesWithin_performs (h : image.Sound sectors) {fuel : Nat} (hfuel : fuel ≠ 0)
    {entries : List Entry} (hmap : map.sectors = sectors)
    (hentries : ∀ entry ∈ entries, ∃ place,
      image.targetAt place = some ⟨entry.sector.toNat, entry.isDirectory⟩ ∧
        sectors < place.length + fuel) :
    Performs ((releaseEntriesWithin fuel entries).using map) image sectors
      (.ok ((), map.clearAll (entries.flatMap fun entry ↦
        image.treeSectors fuel ⟨entry.sector.toNat, entry.isDirectory⟩))) [] := by
  induction fuel generalizing entries map with
  | zero => exact absurd rfl hfuel
  | succ fuel ih =>
    rw [releaseEntriesWithin_succ, ← FreeMap.foldl_clearAll]
    refine Performs.usingForM fun done entry rest hsplit ↦ ?_
    rw [FreeMap.foldl_clearAll]
    generalize hcurrent : map.clearAll _ = current
    have hsectors : current.sectors = sectors := by
      rw [← hcurrent, FreeMap.sectors_clearAll, hmap]
    obtain ⟨place, hplace, hdepth⟩ := hentries entry (by rw [hsplit]; simp)
    obtain ⟨node, hintact⟩ := h.intact_item hplace
    rw [Image.treeSectors, FreeMap.clearAll_append]
    cases hkind : entry.isDirectory with
    | false =>
      rw [if_neg Bool.false_ne_true, if_neg Bool.false_ne_true]
      exact Volume.releaseFile_performs hintact h.sectors_lt hsectors
    | true =>
      rw [hkind] at hplace
      rw [if_pos rfl, if_pos rfl]
      have hlength := h.length_place_lt hplace
      refine (Performs.usingLift (h.load_performs hplace)).usingStep
        ((ih (by omega) hsectors fun below hbelow ↦ ?_).usingStep
          (Volume.releaseFile_performs hintact h.sectors_lt
            ((FreeMap.sectors_clearAll _ _).trans hsectors)))
      obtain ⟨index, hindex⟩ := (Image.exists_entry_iff hplace).mp ⟨below, hbelow, rfl⟩
      exact ⟨index :: place, hindex, by rw [List.length_cons]; omega⟩

theorem releaseEntry_performs (h : image.Sound sectors) {entry : Entry} {place : Place}
    (hplace : image.targetAt place = some ⟨entry.sector.toNat, entry.isDirectory⟩)
    (hmap : map.sectors = sectors) :
    Performs ((releaseEntry entry).using map) image sectors
      (.ok ((), map.clearAll
        (image.treeSectors (sectors + 2) ⟨entry.sector.toNat, entry.isDirectory⟩))) [] := by
  have hrun := @releaseEntriesWithin_performs image sectors map h _ (Nat.succ_ne_zero (sectors + 1))
    [entry] hmap fun other hother ↦ ⟨place, List.mem_singleton.mp hother ▸ hplace, by omega⟩
  rw [List.flatMap_singleton] at hrun
  exact (Performs.usingLift Performs.sectorCount).usingStep hrun

/-! ## Releasing a whole table -/

/-- Goes on after a table was cleared, or stops with what stopped the clearing. -/
def settle {α : Type} (next : Allocation α) : Directory × Option Stop → Allocation α
  | (_, some stop) => throw stop
  | (_, none) => next

theorem outcome_bind {α : Type} (allocation : Allocation Unit) (next : Allocation α) :
    (outcome allocation >>= fun
      | some stop => throw stop
      | none => next) = allocation >>= fun _ ↦ next := by
  funext space
  show EStateM.bind (outcome allocation) _ space = EStateM.bind allocation _ space
  rw [EStateM.bind, EStateM.bind, outcome]
  cases allocation space <;> rfl

/-- What stops the clearing stops what follows, so the entries can be released one by one. -/
theorem clearAt_bind {α : Type} (next : Allocation α) {indices : List (Fin entryCount)}
    (hnodup : indices.Nodup) (directory : Directory) :
    clearAt indices directory >>= settle next =
      ((indices.map (directory.table[·])).filter (·.inUse)).forM releaseEntry >>= fun _ ↦ next := by
  induction indices generalizing directory with
  | nil => rfl
  | cons index rest ih =>
    obtain ⟨hindex, hrest⟩ := List.nodup_cons.mp hnodup
    have hkept : rest.map ((directory.free index).table[·]) = rest.map (directory.table[·]) := by
      refine List.map_congr_left fun other hother ↦ ?_
      have hne : ¬ other = index := fun heq ↦ hindex (heq ▸ hother)
      rw [free, table_update, if_neg hne]
    rw [clearAt, List.map_cons, List.filter_cons]
    split
    · have hnext := ih hrest (directory.free index)
      rw [hkept] at hnext
      calc _ = outcome (releaseEntry directory.table[index]) >>= fun
              | some stop => throw stop
              | none => clearAt rest (directory.free index) >>= settle next := by
            rw [bind_assoc]
            congr 1
            funext stopped
            cases stopped <;> rfl
        _ = releaseEntry directory.table[index] >>= fun _ ↦
              clearAt rest (directory.free index) >>= settle next := outcome_bind _ _
        _ = _ := by
            rw [hnext]
            exact (bind_assoc _ _ _).symm
    · exact ih hrest directory

theorem clear_bind {α : Type} (next : Allocation α) (directory : Directory) :
    directory.clear >>= settle next = directory.entries.forM releaseEntry >>= fun _ ↦ next := by
  rw [clear, clearAt_bind next (List.nodup_finRange entryCount), map_finRange_table]
  rfl

end Directory

/-- Releasing a directory clears the sectors of its tree. -/
theorem Volume.releaseDirectory_performs (h : image.Sound sectors) {place : Place} {sector : Nat}
    (hplace : image.targetAt place = some ⟨sector, true⟩) (hmap : map.sectors = sectors) :
    Performs ((releaseDirectory sector).using map) image sectors
      (.ok ((), map.clearAll (image.treeSectors (sectors + 3) ⟨sector, true⟩))) [] := by
  obtain ⟨node, hintact⟩ := h.intact_item hplace
  rw [Image.treeSectors, if_pos rfl, FreeMap.clearAll_append]
  refine (Performs.usingLift (h.load_performs hplace)).usingStep ?_
  show Performs (InPlace.using
    ((image.table sector).clear >>= Directory.settle (releaseFile sector)) map) _ _ _ _
  rw [Directory.clear_bind, ← FreeMap.foldl_clearAll]
  refine Performs.usingStep (@Performs.usingForM _ _ _ _ map _ _ (fun map entry ↦ map.clearAll
    (image.treeSectors (sectors + 2) ⟨entry.sector.toNat, entry.isDirectory⟩))
    fun done entry rest hsplit ↦ ?_) ?_
  · rw [FreeMap.foldl_clearAll]
    obtain ⟨index, hindex⟩ :=
      (Image.exists_entry_iff hplace).mp ⟨entry, by rw [hsplit]; simp, rfl⟩
    exact Directory.releaseEntry_performs h hindex ((FreeMap.sectors_clearAll _ _).trans hmap)
  · rw [FreeMap.foldl_clearAll]
    exact releaseFile_performs hintact h.sectors_lt ((FreeMap.sectors_clearAll _ _).trans hmap)

end SectorFS
