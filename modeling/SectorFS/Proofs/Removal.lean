import SectorFS.Proofs.InPlace
import SectorFS.Proofs.Linking.Writing
import SectorFS.Proofs.Removal.Release
import Mathlib.Data.Vector.Basic

/-!
# What a removal does

A removal is refused before its first write, or it frees one entry of the parent directory
and the sectors of everything at and below its place, and closes the open files among them.
A file and a directory with all that is below it are removed by the same two groups of
writes: those of the parent's table and those of the map.
-/

namespace SectorFS

variable {image : Image} {sectors : Nat} {volume : Volume}

/-! ## Closing files -/

namespace Performs

variable {α β : Type}

/-- A loop that builds a list, with steps that write nothing. -/
theorem listMapM {items : List α} {step : α → Action β} {value : α → β}
    (h : ∀ item ∈ items, Performs (step item) image sectors (.ok (value item)) []) :
    Performs (items.mapM step) image sectors (.ok (items.map value)) [] := by
  induction items with
  | nil => exact pure []
  | cons item rest ih =>
    rw [List.mapM_cons]
    exact (h item List.mem_cons_self).step
      ((ih fun other hother ↦ h other (List.mem_cons_of_mem _ hother)).step (pure _))

end Performs

namespace Volume

/-- The volume with the open files whose root nodes a map holds. -/
def keepLive (volume : Volume) (map : FreeMap) : Volume :=
  { volume with table := volume.table.map (·.filter fun handle ↦ map.isUsed handle.sector) }

theorem table_keepLive (volume : Volume) (map : FreeMap) (index : Fin maxOpenFiles) :
    (volume.keepLive map).table[index] =
      volume.table[index].filter fun handle ↦ map.isUsed handle.sector := by
  simp [keepLive]

/-- Closes the file at a place if its root node is free in a map. -/
def closeFreed (map : FreeMap) (volume : Volume) (index : Fin maxOpenFiles) : Volume :=
  volume.setSlot index (volume.table[index].filter fun handle ↦ map.isUsed handle.sector)

theorem table_closeFreed (map : FreeMap) (volume : Volume) (items : List (Fin maxOpenFiles))
    (place : Fin maxOpenFiles) :
    (items.foldl (closeFreed map) volume).table[place] =
      if place ∈ items then volume.table[place].filter fun handle ↦ map.isUsed handle.sector
      else volume.table[place] := by
  induction items generalizing volume with
  | nil => simp
  | cons item rest ih =>
    rw [List.foldl_cons, ih, closeFreed, table_setSlot]
    by_cases hplace : place = item
    · subst hplace
      simp [Option.filter_filter]
    · simp [hplace]

theorem roots_closeFreed (map : FreeMap) (volume : Volume) (items : List (Fin maxOpenFiles)) :
    (items.foldl (closeFreed map) volume).mapFile = volume.mapFile ∧
      (items.foldl (closeFreed map) volume).rootFile = volume.rootFile := by
  induction items generalizing volume with
  | nil => exact ⟨rfl, rfl⟩
  | cons item rest ih => exact ih (closeFreed map volume item)

/-- Closing the files place by place closes them all. -/
theorem foldl_closeFreed (map : FreeMap) (volume : Volume) :
    (List.finRange maxOpenFiles).foldl (closeFreed map) volume = volume.keepLive map := by
  obtain ⟨hmapFile, hrootFile⟩ := roots_closeFreed map volume (List.finRange maxOpenFiles)
  have htable := table_closeFreed map volume (List.finRange maxOpenFiles)
  generalize (List.finRange maxOpenFiles).foldl (closeFreed map) volume = reached at *
  obtain ⟨mapFile, rootFile, table⟩ := reached
  obtain rfl : mapFile = volume.mapFile := hmapFile
  obtain rfl : rootFile = volume.rootFile := hrootFile
  obtain rfl : table = (volume.keepLive map).table := by
    apply Vector.ext
    intro index hindex
    have hplace := htable ⟨index, hindex⟩
    rw [if_pos (List.mem_finRange _), ← table_keepLive] at hplace
    exact hplace
  rfl

theorem closeDead_performs {map : FreeMap}
    (htable : ∀ (index : Fin maxOpenFiles) (handle : Handle), volume.table[index] = some handle →
      handle.sector < map.sectors) :
    Performs (volume.closeDead map) image sectors (.ok (volume.keepLive map)) [] := by
  rw [← foldl_closeFreed]
  refine (Performs.usingForM fun done index rest _ ↦ ?_).step (Performs.pure _)
  -- What is left of the table at a place was there before.
  have hbefore (handle : Handle)
      (hslot : (done.foldl (closeFreed map) volume).table[index] = some handle) :
      handle.sector < map.sectors := by
    rw [table_closeFreed] at hslot
    split at hslot
    · exact htable index handle (Option.filter_eq_some_iff.mp hslot).1
    · exact htable index handle hslot
  generalize done.foldl (closeFreed map) volume = reached at hbefore
  rw [using_closeIfDead, closeFreed]
  cases hslot : reached.table[index] with
  | none =>
    rw [Option.filter_none, setSlot_self hslot]
    exact Performs.pure _
  | some handle =>
    have hdead : Performs (liftM (isDead map handle)) image sectors
        (.ok (!map.isUsed handle.sector)) [] := by
      rw [isDead, FreeMap.test, FreeMap.covers, if_pos (hbefore handle hslot)]
      exact Performs.pure _
    refine hdead.step ?_
    rw [Option.filter_some]
    cases map.isUsed handle.sector with
    | true =>
      rw [if_pos rfl, setSlot_self hslot]
      exact Performs.pure _
    | false => exact (Performs.note _ _).step (Performs.pure _)

end Volume

/-! ## The entry of a path -/

namespace Image

/-- A path below the root that leads to a target: the place and the sector of its parent directory,
its last component, and the entry of that name. -/
structure Names (image : Image) (path : Path) (parent : Place) (directory : Nat) (name : String)
    (index : Fin entryCount) (target : Target) : Prop where
  name_eq : path.lastName? = some name
  parent_eq : image.resolveParent path = .ok directory
  place_eq : image.targetAt parent = some ⟨directory, true⟩
  index_eq : (image.table directory).index? name = some index
  target_eq : image.targetAt (index :: parent) = some target

theorem exists_names {path : Path} {name : String} {target : Target}
    (hname : path.lastName? = some name) (h : image.resolve path = .ok target) :
    ∃ parent directory index, image.Names path parent directory name index target := by
  obtain ⟨front, hfront⟩ := List.getLast?_eq_some_iff.mp hname
  rw [Image.resolve, hfront, follow_append] at h
  cases hupper : image.follow ⟨rootSector, true⟩ front with
  | error cause =>
    rw [hupper] at h
    contradiction
  | ok upper =>
    rw [hupper] at h
    change image.follow upper [name] = .ok target at h
    obtain ⟨directory, isDirectory⟩ := upper
    cases isDirectory with
    | false =>
      rw [follow, if_neg Bool.false_ne_true] at h
      contradiction
    | true =>
      have hparent : image.resolveParent path = .ok directory := by
        rw [resolveParent_eq_ok, Image.resolve, hfront, List.dropLast_concat, hupper]
      obtain ⟨parent, hplace⟩ := exists_place_of_resolveParent hparent
      rw [follow_cons] at h
      split at h
      · contradiction
      · rename_i index hindex
        have hchild := (targetAt_cons_of_directory hplace).trans (child?_of_index? hindex)
        obtain rfl := Except.ok.inj h
        exact ⟨parent, directory, index, hname, hparent, hplace, hindex, hchild⟩

/-- A path names one entry. -/
theorem Names.unique {path : Path} {parent other : Place} {directory found : Nat} {name key : String}
    {index slot : Fin entryCount} {target met : Target} (h : image.Sound sectors)
    (hnames : image.Names path parent directory name index target)
    (hothers : image.Names path other found key slot met) :
    parent = other ∧ directory = found ∧ index = slot := by
  obtain rfl := Option.some.inj (hnames.name_eq.symm.trans hothers.name_eq)
  obtain rfl := Except.ok.inj (hnames.parent_eq.symm.trans hothers.parent_eq)
  exact ⟨h.place_eq hnames.place_eq hothers.place_eq rfl, rfl,
    Option.some.inj (hnames.index_eq.symm.trans hothers.index_eq)⟩

/-- Why a path is refused for a removal. What it leads to is refused for its entries only. -/
def removalRefusal (image : Image) (text : String) : Error :=
  match Path.parse text with
  | .error fault => .invalidPath fault
  | .ok path =>
    match path.lastName? with
    | none => .invalidPath .rootIrremovable
    | some _ =>
      match image.resolve path with
      | .error cause => cause
      | .ok _ => .directoryNotEmpty

theorem isRefusal_removalRefusal (image : Image) (text : String) :
    (image.removalRefusal text).IsRefusal := by
  rw [removalRefusal]
  split
  · simp [Error.IsRefusal]
  · split
    · simp [Error.IsRefusal]
    · split
      · rename_i hresolve
        exact isRefusal_of_resolve hresolve
      · simp [Error.IsRefusal]

/-- The writes of a removal: the parent's table without the entry, and the map without the sectors
at and below its place. -/
def Removed (image : Image) (sectors directory : Nat) (index : Fin entryCount) (target : Target)
    (table map : List Write) : Prop :=
  image.Relinks sectors directory index ((image.table directory).free index)
    ((image.freeMap sectors).clearAll (image.treeSectors (sectors + 3) target)) table map

end Image

namespace Volume

/-- Open files have their root nodes on the disk. -/
def Covered (volume : Volume) (sectors : Nat) : Prop :=
  ∀ (index : Fin maxOpenFiles) (handle : Handle), volume.table[index] = some handle →
    handle.sector < sectors

variable {path : Path} {parent : Place} {directory : Nat} {name : String} {index : Fin entryCount}
  {target : Target}

theorem unlink_performs (hvolume : volume.Attached image) (h : image.Sound sectors)
    (htable : volume.Covered sectors)
    (hnames : image.Names path parent directory name index target) :
    ∃ table map, Performs (volume.unlink directory name
        ((image.freeMap sectors).clearAll (image.treeSectors (sectors + 3) target))) image sectors
        (.ok (volume.keepLive
          ((image.freeMap sectors).clearAll (image.treeSectors (sectors + 3) target))))
        (table ++ map) ∧
      image.Removed sectors directory index target table map := by
  have hword := Nat.le_of_lt h.sectors_lt
  have hbits : ((image.freeMap sectors).clearAll (image.treeSectors (sectors + 3) target)).sectors =
      sectors := (FreeMap.sectors_clearAll _ _).trans (Image.Sound.sectors_freeMap image sectors)
  have hothers (other : Fin entryCount) (hother : other ≠ index) :
      ((image.table directory).free index).table[other] = (image.table directory).table[other] := by
    rw [Directory.free, Directory.table_update, if_neg hother]
  obtain ⟨node, hintact⟩ := h.intact_item hnames.place_eq
  obtain ⟨table, map, htableRun, hmapRun, hrelinks⟩ :=
    hvolume.relink_performs h hnames.place_eq hintact hothers hbits
  refine ⟨table, map, ?_, hrelinks⟩
  rw [unlink_eq]
  have hload := @Directory.ofFile_performs image sectors ⟨directory, node, 0⟩ hintact hword
    (h.size_directory parent directory hnames.place_eq)
  refine (Handle.fetch_performs hintact hword).step (hload.step ?_)
  rw [Directory.remove_eq_ok hnames.index_eq]
  refine (Performs.pure _).step (htableRun.bind ?_)
  rw [← List.append_nil map]
  refine hmapRun.bind (closeDead_performs fun slot handle hslot ↦ ?_)
  rw [hbits]
  exact htable slot handle hslot

/-- Releasing the tree of a target and taking its name away. -/
theorem releaseAndUnlink_performs (hvolume : volume.Attached image) (h : image.Sound sectors)
    (htable : volume.Covered sectors)
    (hnames : image.Names path parent directory name index target) {release : Allocation Unit}
    (hrelease : Performs (release.using (image.freeMap sectors)) image sectors
      (.ok ((), (image.freeMap sectors).clearAll (image.treeSectors (sectors + 3) target))) [])
    (text : String) :
    ∃ table map, Performs (do
        let ((), map) ← release.using (image.freeMap sectors)
        let volume ← volume.unlink directory name map
        Drive.note .info text
        return volume) image sectors
        (.ok (volume.keepLive
          ((image.freeMap sectors).clearAll (image.treeSectors (sectors + 3) target))))
        (table ++ map) ∧
      image.Removed sectors directory index target table map := by
  obtain ⟨table, map, hrun, hremoved⟩ := unlink_performs hvolume h htable hnames
  refine ⟨table, map, hrelease.step ?_, hremoved⟩
  rw [← List.append_nil (table ++ map)]
  exact hrun.bind ((Performs.note _ _).step (Performs.pure _))

/-! ## The two removals -/

/-- The sectors of a file, or of a directory without entries, are those of its tree. -/
theorem treeSectors_of_childless (image : Image) (fuel : Nat) {target : Target}
    (h : target.isDirectory = true → (image.table target.sector).isEmpty = true) :
    image.treeSectors (fuel + 1) target = image.extent target.sector := by
  rw [Image.treeSectors]
  split
  · rename_i hdirectory
    have hfree := List.all_eq_true.mp (h hdirectory)
    have hnone : (image.table target.sector).entries = [] :=
      List.filter_eq_nil_iff.mpr fun entry hentry ↦ by simpa using hfree entry hentry
    rw [hnone, List.flatMap_nil, List.nil_append]
  · rw [List.nil_append]

/-- What a removal does: it stops before its first write, or it frees the entry that its path
names. -/
def RemovalPerforms (action : Action Volume) (volume : Volume) (image : Image) (sectors : Nat)
    (text : String) : Prop :=
  (∃ cause : Error, cause.IsRefusal ∧ Performs action image sectors (.error (.error cause)) []) ∨
  ∃ path parent directory name index target table map, Path.parse text = .ok path ∧
    image.Names path parent directory name index target ∧
    Performs action image sectors (.ok (volume.keepLive
      ((image.freeMap sectors).clearAll (image.treeSectors (sectors + 3) target)))) (table ++ map) ∧
    image.Removed sectors directory index target table map

/-! ### What the path leads to -/

/-- The text is the path of something below the root directory. -/
structure Leads (image : Image) (text : String) (path : Path) (name : String) (target : Target) :
    Prop where
  parse_eq : Path.parse text = .ok path
  name_eq : path.lastName? = some name
  target_eq : image.resolve path = .ok target

/-- Goes on with what a path below the root directory leads to. -/
def atTarget (volume : Volume) (text : String)
    (next : Path → String → Directory → Target → Action Volume) : Action Volume := do
  let path ← parsePath text
  match path.lastName? with
  | none => fail (.invalidPath .rootIrremovable)
  | some name =>
    let root ← volume.loadRoot
    let target ← path.resolve root rootSector
    next path name root target

theorem remove_eq (volume : Volume) (text : String) :
    volume.remove text = volume.atTarget text fun path name root target ↦ do
      let parentAt ← path.resolveParent root rootSector
      if target.isDirectory then
        if !(← Directory.load target.sector).isEmpty then
          fail .directoryNotEmpty
      let map ← volume.loadMap
      Drive.note .debug
        ("Start deallocate " ++ path.toText ++ " at sector " ++ toString target.sector)
      let ((), map) ← (releaseFile target.sector).using map
      let volume ← volume.unlink parentAt name map
      Drive.note .info ("Removed " ++ path.toText)
      return volume := by
  rw [remove, InPlace.remove, InPlace.after_lift_bind]
  refine bind_congr fun path ↦ ?_
  cases path.lastName? with
  | none => rfl
  | some name =>
    dsimp only
    simp only [InPlace.after_current_bind, InPlace.after_lift_bind]
    refine bind_congr fun root ↦ bind_congr fun target ↦ bind_congr fun parentAt ↦ ?_
    have hdiscard : (InPlace.discard path name parentAt target).after volume = (do
        let map ← volume.loadMap
        Drive.note .debug
          ("Start deallocate " ++ path.toText ++ " at sector " ++ toString target.sector)
        let ((), map) ← (releaseFile target.sector).using map
        let volume ← volume.unlink parentAt name map
        Drive.note .info ("Removed " ++ path.toText)
        return volume) := by
      simp only [InPlace.discard, InPlace.after_current_bind, InPlace.after_lift_bind,
        InPlace.after_bind, InPlace.after_lift, unlink]
    split
    · rw [InPlace.after_lift_bind]
      refine bind_congr fun directory ↦ ?_
      split
      · rfl
      · exact hdiscard
    · exact hdiscard

theorem removeTree_eq (volume : Volume) (text : String) :
    volume.removeTree text = volume.atTarget text (fun path name root target ↦ do
      if target.isDirectory then
        let parentAt ← path.resolveParent root rootSector
        let map ← volume.loadMap
        let ((), map) ← (releaseDirectory target.sector).using map
        let volume ← volume.unlink parentAt name map
        Drive.note .info ("Removed " ++ path.toText ++ " and everything below it")
        return volume
      else
        volume.remove text) := by
  rw [removeTree, InPlace.removeTree, InPlace.after_lift_bind]
  refine bind_congr fun path ↦ ?_
  cases path.lastName? with
  | none => rfl
  | some name =>
    dsimp only
    simp only [InPlace.after_current_bind, InPlace.after_lift_bind]
    refine bind_congr fun root ↦ bind_congr fun target ↦ ?_
    split
    · simp only [InPlace.after_lift_bind, InPlace.after_bind, InPlace.after_lift, unlink]
    · rfl

section AtTarget

variable {text : String} {next : Path → String → Directory → Target → Action Volume}

theorem atTarget_performs (hvolume : volume.Attached image) (h : image.Sound sectors)
    (hleads : Leads image text path name target) {outcome : Except Stop Volume} {writes : List Write}
    (hnext : Performs (next path name (image.table rootSector) target) image sectors outcome writes) :
    Performs (volume.atTarget text next) image sectors outcome writes := by
  have hresolve := Path.resolve_performs h path
  rw [hleads.target_eq] at hresolve
  rw [atTarget, parsePath, hleads.parse_eq]
  refine (Performs.pure path).step ?_
  rw [hleads.name_eq]
  exact (hvolume.loadRoot_performs h).step (Performs.step hresolve hnext)

/-- A path that leads nowhere, or to the root directory, is refused. -/
theorem atTarget_refused (hvolume : volume.Attached image) (h : image.Sound sectors)
    (hnot : ∀ path name target, ¬ Leads image text path name target) :
    Performs (volume.atTarget text next) image sectors
      (.error (.error (image.removalRefusal text))) [] := by
  rw [atTarget, parsePath, Image.removalRefusal]
  cases hparse : Path.parse text with
  | error fault => exact Performs.stop (Performs.fail _)
  | ok path =>
    refine (Performs.pure path).step ?_
    dsimp only
    cases hname : path.lastName? with
    | none => exact Performs.fail _
    | some name =>
      have hresolve := Path.resolve_performs h path
      dsimp only
      cases htarget : image.resolve path with
      | error cause =>
        rw [htarget] at hresolve
        exact (hvolume.loadRoot_performs h).step (Performs.stop hresolve)
      | ok target => exact absurd ⟨hparse, hname, htarget⟩ (hnot path name target)

end AtTarget

/-- The parent directory of what a path leads to. -/
theorem Leads.resolveParent_performs {text : String} (hleads : Leads image text path name target)
    (h : image.Sound sectors) (hnames : image.Names path parent directory name index target) :
    Performs (path.resolveParent (image.table rootSector) rootSector) image sectors
      (.ok directory) [] := by
  have hparent := Path.resolveParent_performs h hleads.name_eq
  rwa [hnames.parent_eq] at hparent

/-! ### Refused or done -/

/-- The removal frees the entry that the path names and closes the files that are gone. -/
def Frees (action : Action Volume) (volume : Volume) (image : Image) (sectors : Nat) (path : Path)
    (name : String) (target : Target) : Prop :=
  ∃ parent directory index table map, image.Names path parent directory name index target ∧
    Performs action image sectors (.ok (volume.keepLive
      ((image.freeMap sectors).clearAll (image.treeSectors (sectors + 3) target)))) (table ++ map) ∧
    image.Removed sectors directory index target table map

section

variable (hvolume : volume.Attached image) (h : image.Sound sectors)
  {text : String} (hleads : Leads image text path name target)

include hvolume h hleads

/-- A file and a directory without entries are removed. -/
theorem remove_frees (htable : volume.Covered sectors)
    (hchildless : target.isDirectory = true → (image.table target.sector).isEmpty = true) :
    Frees (volume.remove text) volume image sectors path name target := by
  obtain ⟨parent, directory, index, hnames⟩ := Image.exists_names hleads.name_eq hleads.target_eq
  obtain ⟨node, hintact⟩ := h.intact_item hnames.target_eq
  have hrelease := releaseFile_performs hintact h.sectors_lt
    (Image.Sound.sectors_freeMap image sectors)
  rw [← treeSectors_of_childless image (sectors + 2) hchildless] at hrelease
  obtain ⟨table, map, hrun, hremoved⟩ := releaseAndUnlink_performs hvolume h htable hnames
    hrelease ("Removed " ++ path.toText)
  refine ⟨parent, directory, index, table, map, hnames, ?_, hremoved⟩
  rw [remove_eq]
  refine atTarget_performs hvolume h hleads
    ((hleads.resolveParent_performs h hnames).step ?_)
  obtain ⟨sector, isDirectory⟩ := target
  cases isDirectory with
  | false => exact (hvolume.loadMap_performs h).step ((Performs.note _ _).step hrun)
  | true =>
    refine (h.load_performs hnames.target_eq).step ?_
    rw [if_neg (by rw [hchildless rfl]; exact Bool.false_ne_true)]
    exact (hvolume.loadMap_performs h).step ((Performs.note _ _).step hrun)

/-- A directory with entries is not removed. -/
theorem remove_occupied (hdirectory : target.isDirectory = true)
    (hentries : (image.table target.sector).isEmpty = false) :
    Performs (volume.remove text) image sectors (.error (.error .directoryNotEmpty)) [] := by
  obtain ⟨parent, directory, index, hnames⟩ := Image.exists_names hleads.name_eq hleads.target_eq
  obtain ⟨sector, isDirectory⟩ := target
  obtain rfl : isDirectory = true := hdirectory
  rw [remove_eq]
  refine atTarget_performs hvolume h hleads
    ((hleads.resolveParent_performs h hnames).step ((h.load_performs hnames.target_eq).step ?_))
  rw [if_pos (by rw [hentries]; rfl)]
  exact Performs.fail _

/-- A file and a directory are removed with everything below. -/
theorem removeTree_frees (htable : volume.Covered sectors) :
    Frees (volume.removeTree text) volume image sectors path name target := by
  obtain ⟨parent, directory, index, hnames⟩ := Image.exists_names hleads.name_eq hleads.target_eq
  obtain ⟨sector, isDirectory⟩ := target
  cases isDirectory with
  | false =>
    obtain ⟨parent, directory, index, table, map, hnames, hrun, hremoved⟩ :=
      remove_frees hvolume h hleads htable fun hfalse ↦ absurd hfalse Bool.false_ne_true
    refine ⟨parent, directory, index, table, map, hnames, ?_, hremoved⟩
    rw [removeTree_eq]
    exact atTarget_performs hvolume h hleads hrun
  | true =>
    obtain ⟨table, map, hrun, hremoved⟩ := releaseAndUnlink_performs hvolume h htable hnames
      (releaseDirectory_performs h hnames.target_eq (Image.Sound.sectors_freeMap image sectors))
      ("Removed " ++ path.toText ++ " and everything below it")
    refine ⟨parent, directory, index, table, map, hnames, ?_, hremoved⟩
    rw [removeTree_eq]
    exact atTarget_performs hvolume h hleads
      ((hleads.resolveParent_performs h hnames).step ((hvolume.loadMap_performs h).step hrun))

end

theorem Leads.performs {text : String} {action : Action Volume}
    (hleads : Leads image text path name target)
    (hfrees : Frees action volume image sectors path name target) :
    RemovalPerforms action volume image sectors text := by
  obtain ⟨parent, directory, index, table, map, hnames, hrun, hremoved⟩ := hfrees
  exact Or.inr ⟨path, parent, directory, name, index, target, table, map, hleads.parse_eq, hnames,
    hrun, hremoved⟩

theorem remove_performs (hvolume : volume.Attached image) (h : image.Sound sectors)
    (htable : volume.Covered sectors) (text : String) :
    RemovalPerforms (volume.remove text) volume image sectors text := by
  by_cases hleads : ∃ path name target, Leads image text path name target
  · obtain ⟨path, name, target, hleads⟩ := hleads
    by_cases hchildless : target.isDirectory = true →
        (image.table target.sector).isEmpty = true
    · exact hleads.performs (remove_frees hvolume h hleads htable hchildless)
    · rw [Classical.not_imp, Bool.not_eq_true] at hchildless
      exact Or.inl ⟨.directoryNotEmpty, by simp [Error.IsRefusal],
        remove_occupied hvolume h hleads hchildless.1 hchildless.2⟩
  · rw [remove_eq]
    exact Or.inl ⟨_, image.isRefusal_removalRefusal text,
      atTarget_refused hvolume h fun path name target hfound ↦ hleads ⟨path, name, target, hfound⟩⟩

theorem removeTree_performs (hvolume : volume.Attached image) (h : image.Sound sectors)
    (htable : volume.Covered sectors) (text : String) :
    RemovalPerforms (volume.removeTree text) volume image sectors text := by
  by_cases hleads : ∃ path name target, Leads image text path name target
  · obtain ⟨path, name, target, hleads⟩ := hleads
    exact hleads.performs (removeTree_frees hvolume h hleads htable)
  · rw [removeTree_eq]
    exact Or.inl ⟨_, image.isRefusal_removalRefusal text,
      atTarget_refused hvolume h fun path name target hfound ↦ hleads ⟨path, name, target, hfound⟩⟩

end Volume

end SectorFS
