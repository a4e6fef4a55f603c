import SectorFS.Proofs.Space
import Mathlib.Data.Set.Defs

/-!
# Courses

`Performs` speaks about disks that have all the sectors they promise. What an action does often
hangs on much less: a search reads the nodes of one tree, and building a tree reads nothing. The
course of an action says step by step what it reads and what it writes. It reads within a
footprint, and where the disk shows the image there it returns the value after the writes.

An action keeps to its course on every disk: on one that has all its sectors, whatever else it
refuses (`Course.performs`), on one that refuses nothing and shows the footprint, whatever else it
lacks (`Course.run`), and on one of which nothing is known, if the action comes to its end there
(`Course.of_ok`).
-/

namespace SectorFS

/-- The action reads within the footprint only. It returns the value after the writes, on disks of
the given number of sectors that have the image in the footprint. -/
inductive Course (footprint : Set Nat) (sectors : Nat) :
    {α : Type} → Action α → Image → α → List Write → Prop
  | pure {α : Type} {image : Image} (value : α) :
      Course footprint sectors (Pure.pure value) image value []
  | note {image : Image} (severity : Severity) (text : String) :
      Course footprint sectors (Drive.note severity text) image () []
  | sectorCount {image : Image} : Course footprint sectors Drive.sectorCount image sectors []
  | readSector {image : Image} {number : Nat} (mem : number ∈ footprint)
      (word : number < 2 ^ 57) :
      Course footprint sectors (Drive.readSector number) image (image number) []
  | writeSector {image : Image} {number : Nat} (content : Sector) (word : number < 2 ^ 57) :
      Course footprint sectors (Drive.writeSector number content) image () [(number, content)]
  | bind {α β : Type} {action : Action α} {next : α → Action β} {image : Image} {value : α}
      {result : β} {first rest : List Write}
      (haction : Course footprint sectors action image value first)
      (hnext : Course footprint sectors (next value) (image.putAll first) result rest) :
      Course footprint sectors (action >>= next) image result (first ++ rest)

/-- A sector can be read, and holds what the image says. -/
structure Disk.Shows (disk : Disk) (image : Image) (number : Nat) : Prop where
  lt : number < disk.sectorCount
  le_size : number * sectorSize + sectorSize ≤ disk.medium.size
  sector_eq : disk.sector number = image number

/-- The writes have reached the disk: it had their sectors, and its medium is long enough for them
now. -/
structure Disk.Takes (before : Disk) (writes : List Write) (after : Disk) : Prop where
  sectorCount_eq : after.sectorCount = before.sectorCount
  size_le : before.medium.size ≤ after.medium.size
  sector_eq : after.sector = Image.putAll before.sector writes
  stored : ∀ write ∈ writes, write.1 < before.sectorCount ∧
    write.1 * sectorSize + sectorSize ≤ after.medium.size

namespace Disk.Takes

variable {first second third : Disk} {writes more : List Write}

theorem of_eq (hmedium : second.medium = first.medium)
    (hcount : second.sectorCount = first.sectorCount) : first.Takes [] second where
  sectorCount_eq := hcount
  size_le := by rw [hmedium]
  sector_eq := by
    funext number
    rw [Image.putAll_nil, sector, sector, hmedium]
  stored _ hwrite := nomatch hwrite

theorem store (disk : Disk) {number : Nat} (content : Sector) (h : number < disk.sectorCount) :
    disk.Takes [(number, content)] (disk.store number content.bytes) where
  sectorCount_eq := sectorCount_store _ _ _
  size_le := by
    rw [size_medium_store]
    exact Nat.le_max_left _ _
  sector_eq := sector_store disk number content
  stored write hwrite := by
    obtain rfl := List.mem_singleton.mp hwrite
    rw [size_medium_store]
    exact ⟨h, Nat.le_max_right _ _⟩

theorem trans (h : first.Takes writes second) (hnext : second.Takes more third) :
    first.Takes (writes ++ more) third where
  sectorCount_eq := hnext.sectorCount_eq.trans h.sectorCount_eq
  size_le := h.size_le.trans hnext.size_le
  sector_eq := by rw [hnext.sector_eq, h.sector_eq, Image.putAll_append]
  stored write hwrite := by
    rcases List.mem_append.mp hwrite with hfirst | hrest
    · obtain ⟨hlt, hsize⟩ := h.stored write hfirst
      exact ⟨hlt, hsize.trans hnext.size_le⟩
    · rw [← h.sectorCount_eq]
      exact hnext.stored write hrest

end Disk.Takes

/-- Writes have the same effect on a sector that was the same. -/
theorem Image.putAll_congr {image other : Image} {number : Nat} (h : other number = image number)
    (writes : List Write) : other.putAll writes number = image.putAll writes number := by
  induction writes generalizing image other with
  | nil => exact h
  | cons write rest ih =>
    refine ih ?_
    rw [put, put, h]

namespace Course

variable {α β : Type} {footprint : Set Nat} {sectors : Nat} {image : Image}

/-! ## Sequences -/

/-- A step that writes nothing. -/
theorem step {action : Action α} {next : α → Action β} {value : α} {result : β}
    {writes : List Write} (haction : Course footprint sectors action image value [])
    (hnext : Course footprint sectors (next value) image result writes) :
    Course footprint sectors (action >>= next) image result writes :=
  bind haction hnext

section Allocations

variable {allocation : Allocation α} {next : α → Allocation β} {map reached : FreeMap} {value : α}

theorem usingBind {result : β × FreeMap} {first rest : List Write}
    (hfirst : Course footprint sectors (allocation.using map) image (value, reached) first)
    (hnext : Course footprint sectors ((next value).using reached) (image.putAll first) result
      rest) :
    Course footprint sectors ((allocation >>= next).using map) image result (first ++ rest) := by
  rw [InPlace.using_bind]
  exact bind hfirst hnext

theorem usingStep {result : β × FreeMap} {writes : List Write}
    (hfirst : Course footprint sectors (allocation.using map) image (value, reached) [])
    (hnext : Course footprint sectors ((next value).using reached) image result writes) :
    Course footprint sectors ((allocation >>= next).using map) image result writes :=
  usingBind hfirst hnext

theorem usingPure (value : α) :
    Course footprint sectors ((Pure.pure value : Allocation α).using map) image (value, map) [] :=
  pure (value, map)

theorem usingLift {action : Action α} {writes : List Write}
    (h : Course footprint sectors action image value writes) :
    Course footprint sectors ((liftM action : Allocation α).using map) image (value, map)
      writes := by
  rw [InPlace.using_lift, ← List.append_nil writes]
  exact bind h (pure (value, map))

theorem claim {sector : Nat} {rest : List Nat} (h : map.free = sector :: rest) :
    Course footprint sectors (Space.claim.using map) image (sector, map.mark sector) [] := by
  rw [Space.claim_using h]
  exact pure _

theorem clear {sector : Nat} (h : sector < map.sectors) :
    Course footprint sectors ((Space.clear sector).using map) image ((), map.clear sector) [] := by
  rw [Space.clear_using h]
  exact pure _

theorem freeCount (h : map.Clean) :
    Course footprint sectors (Space.freeCount.using map) image (map.free.length, map) [] := by
  rw [Space.freeCount_using h]
  exact pure _

end Allocations

/-! ## Loops -/

/-- A loop that builds a list and never looks at the disk. The invariant speaks about what was
built, the map and the writes so far. -/
theorem usingMapM_range {step : Nat → Allocation β} {map : FreeMap} {count : Nat}
    (Inv : Nat → List β → FreeMap → List Write → Prop) (hstart : Inv 0 [] map [])
    (hstep : ∀ index < count, ∀ built current writes, Inv index built current writes →
      ∃ value next more, (∀ image, Course footprint sectors ((step index).using current) image
        (value, next) more) ∧ Inv (index + 1) (built ++ [value]) next (writes ++ more)) :
    ∃ built final writes, (∀ image, Course footprint sectors
      (((List.range count).mapM step).using map) image (built, final) writes) ∧
        Inv count built final writes := by
  induction count with
  | zero => exact ⟨[], map, [], fun image ↦ usingPure [], hstart⟩
  | succ count ih =>
    obtain ⟨built, current, writes, hrun, hinv⟩ := ih fun index hindex ↦
      hstep index (Nat.lt_succ_of_lt hindex)
    obtain ⟨value, next, more, hlast, hnext⟩ :=
      hstep count (Nat.lt_succ_self count) built current writes hinv
    refine ⟨built ++ [value], next, writes ++ more, fun image ↦ ?_, hnext⟩
    rw [List.range_succ, List.mapM_append]
    refine usingBind (hrun image) ?_
    rw [← List.append_nil more]
    refine usingBind (?_ : Course _ _ _ _ ([value], next) more) (usingPure _)
    rw [List.mapM_cons, ← List.append_nil more]
    refine usingBind (hlast _) ?_
    rw [List.mapM_nil]
    exact usingStep (usingPure _) (usingPure _)

/-- A loop over a list that changes the map and writes nothing. -/
theorem usingForM {step : α → Allocation Unit} {map : FreeMap} {items : List α}
    {change : FreeMap → α → FreeMap}
    (hstep : ∀ done item rest, items = done ++ item :: rest →
      Course footprint sectors ((step item).using (done.foldl change map)) image
        ((), change (done.foldl change map) item) []) :
    Course footprint sectors ((items.forM step).using map) image ((), items.foldl change map)
      [] := by
  induction items generalizing map with
  | nil => exact usingPure ()
  | cons item rest ih =>
    show Course _ _ ((step item >>= fun _ ↦ rest.forM step).using map) _ _ _
    refine usingStep (hstep [] item rest rfl) (ih fun done other tail hsplit ↦ ?_)
    exact hstep (item :: done) other tail (by rw [hsplit]; rfl)

/-! ## Runs -/

/-- On a disk that has all its sectors the course is a sequence of requests. -/
theorem performs {action : Action α} {value : α} {writes : List Write}
    (h : Course footprint sectors action image value writes)
    (hfootprint : ∀ number ∈ footprint, number < sectors)
    (hwrites : ∀ write ∈ writes, write.1 < sectors) :
    Performs action image sectors (.ok value) writes := by
  induction h with
  | pure value => exact .pure value
  | note severity text => exact .note severity text
  | sectorCount => exact .sectorCount
  | readSector mem word => exact .readSector (hfootprint _ mem) word
  | writeSector content word => exact .writeSector content (hwrites _ List.mem_cons_self) word
  | bind _ _ ihaction ihnext =>
    exact (ihaction fun write hwrite ↦ hwrites write (List.mem_append_left _ hwrite)).bind
      (ihnext fun write hwrite ↦ hwrites write (List.mem_append_right _ hwrite))

/-- A disk that refuses nothing and shows the footprint is all that a course without writes needs.
It changes the count of requests and the journal at most. -/
theorem run {action : Action α} {value : α} {writes : List Write}
    (h : Course footprint sectors action image value writes) (hnone : writes = []) {drive : Drive}
    (hcount : drive.disk.sectorCount = sectors) (hfaults : drive.disk.faults = .none)
    (hshows : ∀ number ∈ footprint, drive.disk.Shows image number) :
    ∃ requests journal, action drive = .ok value
      ⟨{ drive.disk with traffic := ⟨requests, drive.disk.traffic.writes⟩ }, journal⟩ := by
  induction h generalizing drive with
  | pure value => exact ⟨_, _, rfl⟩
  | note severity text => exact ⟨_, _, rfl⟩
  | sectorCount =>
    subst hcount
    exact ⟨_, _, rfl⟩
  | @readSector image number mem word =>
    obtain ⟨hlt, hsize, hsector⟩ := hshows number mem
    have haccepts : drive.disk.readRefusal? number sectorSize = none := by
      have hinjected : drive.disk.faults.refusesRead drive.disk.traffic number = false := by
        rw [hfaults]
        rfl
      simp only [sectorSize] at hsize
      simp only [Disk.readRefusal?, hinjected, Checked.wordLimit, sectorSize]
      rw [if_neg Bool.false_ne_true, if_neg (by omega), if_neg (by omega), if_neg (by omega),
        if_neg (by omega)]
    rw [Drive.readSector, Drive.readSectorInto, haccepts, ← hsector]
    exact ⟨_, _, rfl⟩
  | writeSector content word => exact absurd hnone (List.cons_ne_nil _ _)
  | @bind _ _ action next image value result first rest _ _ ihaction ihnext =>
    obtain ⟨rfl, rfl⟩ := List.append_eq_nil_iff.mp hnone
    obtain ⟨requests, journal, hrun⟩ := ihaction rfl hcount hfaults hshows
    obtain ⟨total, final, hrest⟩ := @ihnext rfl
      ⟨{ drive.disk with traffic := ⟨requests, drive.disk.traffic.writes⟩ }, journal⟩
      hcount hfaults fun number hnumber ↦
        ⟨(hshows number hnumber).lt, (hshows number hnumber).le_size,
          (hshows number hnumber).sector_eq⟩
    exact ⟨total, final, (bind_of_ok hrun).trans hrest⟩

/-- Whatever a disk refuses and lacks, an action that comes to its end there has kept to its
course. -/
theorem of_ok {action : Action α} {value result : α} {writes : List Write}
    (h : Course footprint sectors action image value writes) {drive final : Drive}
    (hcount : drive.disk.sectorCount = sectors)
    (himage : ∀ number ∈ footprint, drive.disk.sector number = image number)
    (hrun : action drive = .ok result final) :
    result = value ∧ drive.disk.Takes writes final.disk := by
  induction h generalizing drive final with
  | pure value =>
    obtain ⟨rfl, rfl⟩ := EStateM.Result.ok.inj hrun
    exact ⟨rfl, .of_eq rfl rfl⟩
  | note severity text =>
    obtain ⟨rfl, rfl⟩ := EStateM.Result.ok.inj hrun
    exact ⟨rfl, .of_eq rfl rfl⟩
  | sectorCount =>
    obtain ⟨rfl, rfl⟩ := EStateM.Result.ok.inj hrun
    exact ⟨hcount, .of_eq rfl rfl⟩
  | readSector mem word =>
    rw [Drive.readSector, Drive.readSectorInto] at hrun
    split at hrun
    · contradiction
    · obtain ⟨rfl, rfl⟩ := EStateM.Result.ok.inj hrun
      exact ⟨himage _ mem, .of_eq rfl rfl⟩
  | @writeSector image number content word =>
    rw [Drive.writeSector, Drive.writeBytes] at hrun
    split at hrun
    · contradiction
    · rename_i haccepts
      obtain ⟨rfl, rfl⟩ := EStateM.Result.ok.inj hrun
      refine ⟨rfl, .store drive.disk content (Nat.lt_of_not_le fun hle ↦ ?_)⟩
      rw [Disk.writeRefusal?, if_pos hle] at haccepts
      split at haccepts <;> contradiction
  | @bind _ _ action next image value result first rest _ _ ihaction ihnext =>
    replace hrun : EStateM.bind action next drive = .ok _ final := hrun
    rw [EStateM.bind] at hrun
    cases hfirst : action drive with
    | error stop middle =>
      rw [hfirst] at hrun
      contradiction
    | ok reached middle =>
      rw [hfirst] at hrun
      obtain ⟨rfl, htaken⟩ := ihaction hcount himage hfirst
      obtain ⟨hresult, hrest⟩ := ihnext (htaken.sectorCount_eq.trans hcount)
        (fun number hnumber ↦ by
          rw [htaken.sector_eq]
          exact Image.putAll_congr (himage number hnumber) first) hrun
      exact ⟨hresult, htaken.trans hrest⟩

end Course

end SectorFS
