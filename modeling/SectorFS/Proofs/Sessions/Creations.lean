import SectorFS.Proofs.Creation.Names
import SectorFS.Proofs.Sessions.Formatted

/-!
# The exact effect of a creation

A creation in a session succeeds if and only if the path names something new in a directory
that has a free entry, the size has a tree, and the free sectors are enough for the tree and
its root. Then exactly these sectors are gone, the path leads to a new file of the size and
the kind, and every other path leads where it led. The one file that changes is the parent
directory, whose table gets the new entry.
-/

namespace SectorFS

open SectorFS.Geometry

variable {sectors : Nat} {session : Session} {call : Call} {text : String} {size : Nat}
  {isDirectory : Bool}

namespace Image

/-- A file of a size can be created at a path: it is not the root, its parent is a directory that
has a free entry and not its name, and the tree and its root fit into the free sectors. -/
def Accepts (image : Image) (text : String) (size free : Nat) : Prop :=
  ∃ path directory name level, Path.parse text = .ok path ∧ path.lastName? = some name ∧
    image.resolve ⟨path.components.dropLast⟩ = .ok ⟨directory, true⟩ ∧
    (image.table directory).find? name = none ∧
    (∃ index : Fin entryCount, (image.table directory).table[index].inUse = false) ∧
    size ≤ capacity maxLevel ∧ levelFor size = some level ∧ 1 + sectorNeeds level size ≤ free

/-- What a creation adds: a path that leads to a new file, and an entry for it in its directory.
Every other path leads where it led, and every other file has the bytes it had. -/
structure Gains (image changed : Image) (text : String) (size : Nat) (isDirectory : Bool)
    (path : Path) (directory sector : Nat) : Prop where
  parse_eq : Path.parse text = .ok path
  parent_eq : image.resolve ⟨path.components.dropLast⟩ = .ok ⟨directory, true⟩
  locate_eq : changed.locate text = .ok ⟨sector, isDirectory⟩
  length_eq : ∃ node, changed.node? sector = some node ∧ node.length.toNat = size
  empty : isDirectory = true → changed.content sector = Directory.empty.toBytes
  entered : ∃ name index, path.lastName? = some name ∧
    (image.table directory).table[index].inUse = false ∧ changed.content directory =
      ((image.table directory).update index (.ofName name sector isDirectory)).toBytes
  kept : ∀ other target, image.locate other = .ok target → changed.locate other = .ok target ∧
    changed.node? target.sector = image.node? target.sector ∧
    (target.sector ≠ directory → changed.content target.sector = image.content target.sector)
  only : ∀ other target, changed.locate other = .ok target → other ≠ text →
    image.locate other = .ok target

/-- What is accepted has an entry and a tree to be created with, and conversely. -/
theorem accepts_iff {image : Image} :
    image.Accepts text size (image.freeMap sectors).free.length ↔
      ∃ path, Path.parse text = .ok path ∧ ∃ parent directory name index height,
        image.Admits sectors path size parent directory name index height := by
  constructor
  · rintro ⟨path, directory, name, level, hparse, hname, hparent, habsent, hvacant, -, hlevel,
      hroom⟩
    obtain ⟨parent, hplace⟩ := exists_place_of_resolveParent (resolveParent_eq_ok.mpr hparent)
    obtain ⟨height, hheight, rfl⟩ := levelFor_eq_some_iff.mp hlevel
    have hindex : (image.table directory).index? name = none := by
      rw [← Option.not_isSome_iff_eq_none, ← Directory.find?_isSome, habsent]
      exact Bool.false_ne_true
    cases hfree : (image.table directory).freeIndex? with
    | none =>
      obtain ⟨index, hunused⟩ := hvacant
      rw [Directory.freeIndex?_eq_none_iff.mp hfree index] at hunused
      contradiction
    | some index =>
      exact ⟨path, hparse, parent, directory, name, index, height, hname,
        resolveParent_eq_ok.mpr hparent, hplace, hindex, hfree, hheight, by omega⟩
  · rintro ⟨path, hparse, parent, directory, name, index, height, hadmits⟩
    have hheight := hadmits.height_eq
    have hroom := hadmits.room
    refine ⟨path, directory, name, height + 1, hparse, hadmits.name_eq,
      resolveParent_eq_ok.mp hadmits.parent_eq, ?_,
      ⟨index, Directory.not_inUse_of_freeIndex? hadmits.vacant⟩, ?_,
      levelFor_eq_some_iff.mpr ⟨height, hheight, rfl⟩, by omega⟩
    · rw [Directory.find?, Directory.entry?, hadmits.absent]
      rfl
    · refine Nat.le_of_not_lt fun hlarge ↦ ?_
      rw [heightFor_eq_none_iff.mpr hlarge] at hheight
      contradiction

variable {image changed : Image} {path : Path} {directory : Nat} {parent : Place} {name : String}
  {index : Fin entryCount} {height : Fin maxLevel} {sector : Nat} {node : Node}
  {fresh table map : List Write}

/-- A creation adds the new file and its entry and nothing else. -/
theorem Created.gains (hcreated : image.Created sectors directory index name size isDirectory height
      sector node fresh table map) (h : image.Sound sectors)
    (hadmits : image.Admits sectors path size parent directory name index height)
    (hparse : Path.parse text = .ok path) (hzero : '\x00' ∉ text.toList)
    (hsize : isDirectory = true → size = directorySize) :
    image.Gains (image.putAll (fresh ++ (table ++ map))) text size isDirectory path directory
      sector := by
  have hsound := sound_final hcreated h hadmits hsize
  have hplace := targetAt_final hcreated h hadmits
  have hlocate (other : String) (target : Target) :=
    @locate_final _ _ _ _ _ _ _ _ _ _ _ _ _ _ _ hcreated h hadmits text other hparse hzero target
  have hlink := linking_map hcreated h hadmits map.length
  have hspine := new_spine hcreated h hadmits hlink
  rw [← final_eq] at hspine
  have hparent : (image.putAll (fresh ++ (table ++ map))).targetAt parent = some ⟨directory, true⟩ := by
    rw [hplace, if_neg (List.cons_ne_self index parent).symm, hadmits.place_eq]
  have hintact := hcreated.intact.congr hspine
  constructor
  case parse_eq => exact hparse
  case parent_eq => exact resolveParent_eq_ok.mp hadmits.parent_eq
  case locate_eq =>
    rw [hlocate, if_pos rfl]
  case length_eq =>
    refine ⟨node, hintact.node_eq, ?_⟩
    rw [← hintact.size_eq, size_congr hspine, hcreated.size_eq]
  case empty =>
    rintro rfl
    have hcontent := new_content hcreated h hadmits hlink
    rw [← final_eq] at hcontent
    rw [hcontent, content_eq_toBytes (by rw [hcreated.size_eq, hsize rfl]), hcreated.empty rfl]
  case entered =>
    refine ⟨name, index, hadmits.name_eq, Directory.not_inUse_of_freeIndex? hadmits.vacant, ?_⟩
    rw [content_eq_toBytes (hsound.size_directory parent directory hparent),
      table_final hcreated h hadmits]
  case kept =>
    intro other target hother
    have hne : other ≠ text := by
      rintro rfl
      obtain ⟨found, place, hfound, hnames, -⟩ := locate_eq_ok.mp hother
      obtain rfl := Except.ok.inj (hparse.symm.trans hfound)
      rw [hadmits.placeOf_self h] at hnames
      contradiction
    obtain ⟨place, htarget⟩ := exists_place_of_locate hother
    have hunmoved := unmoved_final hcreated h hadmits _ _ (headOf_item htarget)
    refine ⟨(hlocate other target).mpr (by rwa [if_neg hne]), node?_of_spine hunmoved,
      fun hsector ↦ ?_⟩
    apply content_final hcreated h hadmits htarget
    intro heq
    rw [heq, hadmits.place_eq] at htarget
    exact hsector (by rw [← Option.some.inj htarget])
  case only =>
    intro other target hother hne
    rw [hlocate, if_neg hne] at hother
    exact hother

theorem Gains.size_eq (hgains : image.Gains changed text size isDirectory path directory sector) :
    changed.size sector = size := by
  obtain ⟨node, hnode, hlength⟩ := hgains.length_eq
  rw [Image.size, hnode]
  exact hlength

/-- The new file has a root and the tree that its size prescribes. -/
theorem Gains.length_extent {level : Nat}
    (hgains : image.Gains changed text size isDirectory path directory sector)
    (h : changed.Sound sectors) (hlevel : levelFor size = some level) :
    (changed.extent sector).length = 1 + sectorNeeds level size := by
  obtain ⟨height, hheight, rfl⟩ := levelFor_eq_some_iff.mp hlevel
  obtain ⟨place, hplace⟩ := exists_place_of_locate hgains.locate_eq
  obtain ⟨node, hintact⟩ := h.intact_item hplace
  have hlength : node.length.toNat = size := hintact.size_eq.symm.trans hgains.size_eq
  have hsame := hintact.height_eq
  rw [hlength, hheight] at hsame
  rw [hintact.length_extent, hlength, ← Option.some.inj hsame]

end Image

namespace Session

namespace Valid

/-- A creation that is accepted is done. -/
theorem create_done (h : session.Valid sectors) (hcall : call.Creates text size isDirectory)
    (hzero : '\x00' ∉ text.toList)
    (haccepts : session.image.Accepts text size (session.image.freeMap sectors).free.length) :
    session.answer call = .ok .done ∧
      (∃ level, levelFor size = some level ∧
        ((session.step call).image.freeMap sectors).free.length + (1 + sectorNeeds level size) =
          (session.image.freeMap sectors).free.length) ∧
      ∃ path directory sector, session.image.Gains (session.step call).image text size isDirectory
        path directory sector := by
  obtain ⟨path, parent, directory, name, index, height, sector, node, fresh, table, map, hparse,
    hadmits, hrun, hcreated⟩ | ⟨hnot, -⟩ := h.create_performs hcall
  · have himage := h.image_of_performs hrun
    have hroom := hadmits.room
    refine ⟨h.answer_of_performs hrun, ⟨height + 1,
      levelFor_eq_some_iff.mpr ⟨height, hadmits.height_eq, rfl⟩, ?_⟩, ?_⟩
    · rw [himage, Image.Created.freeMap_final hcreated h.sound hadmits, Image.claimed,
        FreeMap.free_markAll_take, List.length_drop]
      omega
    · rw [himage]
      exact ⟨path, directory, sector, hcreated.gains h.sound hadmits hparse hzero hcall.size_eq⟩
  · obtain ⟨path, hparse, hadmits⟩ := Image.accepts_iff.mp haccepts
    exact (hnot path hparse hadmits).elim

/-- A creation that is not accepted is refused and changes nothing. -/
theorem create_refused (h : session.Valid sectors) (hcall : call.Creates text size isDirectory)
    (hnot : ¬ session.image.Accepts text size (session.image.freeMap sectors).free.length) :
    session.answer call = .error (.error (session.image.creationRefusal sectors text)) ∧
      (session.step call).image = session.image := by
  have hrun := h.create_refused_performs hcall fun path hparse hadmits ↦
    hnot (Image.accepts_iff.mpr ⟨path, hparse, hadmits⟩)
  refine ⟨h.answer_of_performs hrun, ?_⟩
  rw [h.image_of_performs hrun, Image.putAll_nil]

/-- Done or refused, a creation leaves every path that leads somewhere. -/
theorem locate_creates (h : session.Valid sectors) (hcall : call.Creates text size isDirectory)
    (hzero : '\x00' ∉ text.toList) {other : String} {target : Target}
    (hother : session.image.locate other = .ok target) :
    (session.step call).image.locate other = .ok target := by
  by_cases haccepts : session.image.Accepts text size (session.image.freeMap sectors).free.length
  · obtain ⟨-, -, path, directory, sector, hgains⟩ := h.create_done hcall hzero haccepts
    exact (hgains.kept other target hother).1
  · rwa [(h.create_refused hcall haccepts).2]

end Valid

/-- A creation is done if and only if what it asks for is accepted, and then it takes the sectors
of the new tree and its root and has no other effect than to add the new file. -/
theorem Reached.creation (h : Reached sectors session) (hcall : call.Creates text size isDirectory)
    (hzero : '\x00' ∉ text.toList) :
    ∃ free, session.answer .freeSectors = .ok (.count free) ∧
      (session.answer call = .ok .done ↔ session.image.Accepts text size free) ∧
      (session.answer call = .ok .done →
        (∃ level left, levelFor size = some level ∧
          (session.step call).answer .freeSectors = .ok (.count left) ∧
          left + (1 + sectorNeeds level size) = free) ∧
        ∃ path directory sector, session.image.Gains (session.step call).image text size isDirectory
          path directory sector) := by
  have hvalid := h.valid
  have hafter := (hvalid.step (permits_of_creates hcall)).1
  refine ⟨_, hvalid.answer_freeSectors, ?_⟩
  by_cases haccepts : session.image.Accepts text size (session.image.freeMap sectors).free.length
  · obtain ⟨hanswer, ⟨level, hlevel, hleft⟩, hgains⟩ := hvalid.create_done hcall hzero haccepts
    exact ⟨⟨fun _ ↦ haccepts, fun _ ↦ hanswer⟩,
      fun _ ↦ ⟨⟨level, _, hlevel, hafter.answer_freeSectors, hleft⟩, hgains⟩⟩
  · rw [(hvalid.create_refused hcall haccepts).1]
    exact ⟨⟨fun hdone ↦ (nomatch hdone), fun hyes ↦ (haccepts hyes).elim⟩,
      fun hdone ↦ (nomatch hdone)⟩

end Session

/-! ## On a new volume -/

/-- A directory with a free entry accepts what there is room for, if the path leads nowhere. -/
theorem Image.accepts_of_nowhere {image : Image} {path : Path} {directory level free : Nat}
    {name : String} (hparse : Path.parse text = .ok path) (hname : path.lastName? = some name)
    (hparent : image.resolve ⟨path.components.dropLast⟩ = .ok ⟨directory, true⟩)
    (hnowhere : ∀ target, image.locate text ≠ .ok target)
    (hvacant : ∃ index : Fin entryCount, (image.table directory).table[index].inUse = false)
    (hlevel : levelFor size = some level) (hroom : 1 + sectorNeeds level size ≤ free) :
    image.Accepts text size free := by
  obtain ⟨height, hheight, -⟩ := levelFor_eq_some_iff.mp hlevel
  refine ⟨path, directory, name, level, hparse, hname, hparent, ?_, hvacant, ?_, hlevel, hroom⟩
  · cases hfound : (image.table directory).index? name with
    | none =>
      rw [Directory.find?, Directory.entry?, hfound]
      rfl
    | some index =>
      refine (hnowhere ⟨(image.table directory).table[index].sector.toNat,
        (image.table directory).table[index].isDirectory⟩ ?_).elim
      rw [resolve] at hparent
      rw [locate_of_parse hparse, resolve, Path.eq_concat_of_lastName? hname, follow_append,
        hparent]
      show image.follow ⟨directory, true⟩ [name] = _
      rw [follow_cons, hfound]
      rfl
  · refine Nat.le_of_not_lt fun hlarge ↦ ?_
    rw [heightFor_eq_none_iff.mpr hlarge] at hheight
    contradiction

/-- A directory that is empty has free entries. -/
theorem Image.vacant_of_empty {image : Image} {directory : Nat}
    (hempty : image.table directory = Directory.empty) :
    ∃ index : Fin entryCount, (image.table directory).table[index].inUse = false := by
  refine ⟨⟨0, by decide⟩, ?_⟩
  rw [hempty]
  simp [Directory.empty, Entry.inUse, Entry.blank]

/-- A root directory that is empty accepts what there is room for. -/
theorem Image.accepts_of_empty {image : Image} {name : String} {level free : Nat}
    (hempty : image.table rootSector = Directory.empty) (hparse : Path.parse text = .ok ⟨[name]⟩)
    (hlevel : levelFor size = some level) (hroom : 1 + sectorNeeds level size ≤ free) :
    image.Accepts text size free := by
  refine accepts_of_nowhere hparse rfl rfl (fun target hfound ↦ ?_) (vacant_of_empty hempty) hlevel
    hroom
  rw [locate_of_parse hparse, resolve, follow_cons, hempty, Directory.index?_empty] at hfound
  contradiction

/-- What an empty directory does not accept, it refuses for want of sectors. -/
theorem Image.creationRefusal_of_empty {image : Image} {name : String}
    (hempty : image.table rootSector = Directory.empty) (hparse : Path.parse text = .ok ⟨[name]⟩) :
    image.creationRefusal sectors text = .noSpace := by
  have hname : Path.lastName? ⟨[name]⟩ = some name := rfl
  have hparent : image.resolveParent ⟨[name]⟩ = .ok rootSector := rfl
  simp only [creationRefusal, hparse, hname, hparent, hempty, Directory.index?_empty,
    Volume.claimRefusal, Directory.freeIndex?_empty]
  cases (image.freeMap sectors).free <;> rfl

namespace Session

/-- What is created in an empty root directory takes its first entry. -/
theorem Valid.index?_created (h : session.Valid sectors) {name : String}
    (hcall : call.Creates text size isDirectory)
    (hempty : session.image.table rootSector = Directory.empty)
    (hparse : Path.parse text = .ok ⟨[name]⟩) (hzero : '\x00' ∉ name.toList)
    (haccepts : session.image.Accepts text size (session.image.freeMap sectors).free.length) :
    ((session.step call).image.table rootSector).index? name = some 0 := by
  obtain ⟨path, parent, directory, key, index, height, sector, node, fresh, table, map, hfound,
    hadmits, hrun, hcreated⟩ | ⟨hnot, -⟩ := h.create_performs hcall
  · obtain rfl := Except.ok.inj (hparse.symm.trans hfound)
    obtain rfl : rootSector = directory := Except.ok.inj hadmits.parent_eq
    obtain rfl : name = key := Option.some.inj hadmits.name_eq
    have hvacant := hadmits.vacant
    rw [hempty, Directory.freeIndex?_empty] at hvacant
    obtain rfl := Option.some.inj hvacant
    rw [h.image_of_performs hrun, Image.Created.table_final hcreated h.sound.toSound hadmits]
    refine Directory.index?_update_self hadmits.absent ?_
    rw [Directory.isNamed_ofName hzero, beq_self_eq_true]
  · obtain ⟨path, hfound, hadmits⟩ := Image.accepts_iff.mp haccepts
    exact (hnot path hfound hadmits).elim

/-- A disk of 64 sectors after formatting has 51 of them left. -/
theorem exists_reached_small : ∃ volume formatted, Volume.format (.blank 64) = .ok volume formatted ∧
    Reached 64 (begin formatted volume) ∧
    (begin formatted volume).image.table rootSector = Directory.empty ∧
    ((begin formatted volume).image.freeMap 64).free.length = 51 := by
  obtain ⟨volume, formatted, hformat, hreached, htable, hmap⟩ :=
    @exists_reached 64 0 ⟨by decide, by decide⟩
  refine ⟨volume, formatted, hformat, hreached, htable, ?_⟩
  rw [hmap, FreeMap.free_filled (by decide), List.length_range']
  decide

/-- A file of 300 bytes on a disk of 64 sectors leaves 47 of them. -/
theorem exists_created_small : ∃ volume formatted,
    Volume.format (.blank 64) = .ok volume formatted ∧
    let session := begin formatted volume
    let created := session.step (.create "/a" 300)
    Reached 64 session ∧ session.image.table rootSector = Directory.empty ∧
      session.answer (.create "/a" 300) = .ok .done ∧
      (created.image.freeMap 64).free.length = 47 ∧
      ∃ sector, session.image.Gains created.image "/a" 300 false ⟨["a"]⟩ rootSector sector := by
  obtain ⟨volume, formatted, hformat, hreached, htable, hlength⟩ := exists_reached_small
  have hparse : Path.parse "/a" = .ok ⟨["a"]⟩ := by rfl
  obtain ⟨hanswer, ⟨level, hlevel, hleft⟩, path, directory, sector, hgains⟩ :=
    hreached.valid.create_done (.file "/a" 300) (by decide)
      (Image.accepts_of_empty htable hparse (by rfl) (by rw [hlength]; decide))
  obtain rfl : 1 = level := Option.some.inj hlevel
  obtain rfl : path = ⟨["a"]⟩ := Except.ok.inj (hgains.parse_eq.symm.trans hparse)
  obtain rfl : rootSector = directory := (Target.mk.inj (Except.ok.inj hgains.parent_eq)).1
  have hthree : sectorNeeds 1 300 = 3 := by decide
  exact ⟨volume, formatted, hformat, hreached, htable, hanswer, by omega, sector, hgains⟩

/-- A file of 300 bytes takes four sectors of a new volume. -/
theorem creation_first : ∃ volume formatted, Volume.format (.blank 64) = .ok volume formatted ∧
    let session := begin formatted volume
    session.answer (.create "/a" 300) = .ok .done ∧
      (session.step (.create "/a" 300)).answer .freeSectors = .ok (.count 47) ∧
      ∃ path directory sector, session.image.Gains (session.step (.create "/a" 300)).image "/a" 300
        false path directory sector := by
  obtain ⟨volume, formatted, hformat, hreached, htable, hlength⟩ := exists_reached_small
  obtain ⟨free, hfree, hiff, heffect⟩ := Reached.creation hreached (.file "/a" 300) (by decide)
  have hcount : free = 51 := by
    rw [hreached.valid.answer_freeSectors, hlength] at hfree
    exact (Answer.count.inj (Except.ok.inj hfree)).symm
  have hdone := hiff.mpr (Image.accepts_of_empty htable (by rfl) (by rfl) (by
    rw [hcount]
    decide))
  obtain ⟨⟨level, left, hlevel, hleft, hsum⟩, hgains⟩ := heffect hdone
  have hneeds : left = 47 := by
    obtain rfl : level = 1 := (Option.some.inj hlevel).symm
    have hthree : sectorNeeds 1 300 = 3 := by decide
    omega
  exact ⟨volume, formatted, hformat, hdone, hneeds ▸ hleft, hgains⟩

/-- The root directory leads to other bytes after a creation than before. -/
theorem creation_changes_parent : ∃ volume formatted,
    Volume.format (.blank 64) = .ok volume formatted ∧
      let session := begin formatted volume
      session.answer (.create "/a" 300) = .ok .done ∧
        session.image.locate "/" = .ok ⟨rootSector, true⟩ ∧
        (session.step (.create "/a" 300)).image.content rootSector ≠
          session.image.content rootSector := by
  obtain ⟨volume, formatted, hformat, -, htable, hanswer, -, sector, hgains⟩ :=
    exists_created_small
  refine ⟨volume, formatted, hformat, hanswer, rfl, fun hsame ↦ ?_⟩
  obtain ⟨name, index, -, -, hcontent⟩ := hgains.entered
  have htables := Image.table_eq_of_content (hsame.symm.trans hcontent)
  rw [htable] at htables
  have hentry := congrArg (fun directory : Directory ↦ (directory.table[index]).inUse) htables
  simp only [Directory.table_update, if_true] at hentry
  simp [Directory.empty, Entry.inUse, Entry.blank, Entry.ofName] at hentry

end Session

end SectorFS
