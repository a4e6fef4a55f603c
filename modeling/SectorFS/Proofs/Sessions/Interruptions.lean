import SectorFS.Proofs.Removal.Cuts
import SectorFS.Proofs.Sessions.Cuts
import SectorFS.Proofs.Sessions.Removals

/-!
# Sessions that are cut short in a removal

For the time of one call the disk takes a number of writes and no more; after it the disk
takes everything again, and the session goes on with what it has. A removal that meets such
a disk leaves the tree as it was or as it would be without the cut, with every sector of it
marked and none of them in two files. Some sectors of what was removed can stay marked.
-/

namespace SectorFS

variable {sectors limit : Nat} {session : Session} {call : Call}

/-- The drive, told to refuse nothing. -/
def Drive.unlimited (drive : Drive) : Drive := { drive with disk := drive.disk.setFaults .none }

/-- On a limited drive an operation carries out the writes up to the limit, and it fails if there
are more of them. -/
theorem Performs.limited {α : Type} {action : Action α} {image : Image}
    {outcome : Except Stop α} {writes : List Write}
    (h : Performs action image sectors outcome writes) {drive : Drive}
    (hdrive : drive.disk.Holds image sectors) (limit : Nat) :
    ∃ final : Drive, final.disk.Holds (image.putAll (writes.take limit)) sectors ∧
      action (drive.limited limit) = conclude
        (if limit < writes.length then .error (.error (.device .injected)) else outcome) final := by
  have hholds : (drive.limited limit).disk.Holds image sectors :=
    ⟨hdrive.sectorCount_eq, hdrive.le_size, hdrive.sector_eq⟩
  by_cases hlimit : limit < writes.length
  · obtain ⟨final, hfinal, hdisk⟩ := h.cut hholds rfl rfl hlimit
    exact ⟨final, hdisk, by rw [if_pos hlimit]; exact hfinal⟩
  · have hall := Nat.le_of_not_lt hlimit
    obtain ⟨final, hfinal, hdisk⟩ := h.spared hholds rfl rfl hall
    rw [if_neg hlimit, List.take_of_length_le hall]
    exact ⟨final, hdisk, hfinal⟩

namespace Session

/-- The session after a call during which the disk takes so many writes and no more. -/
def interrupt (session : Session) (call : Call) (limit : Nat) : Session :=
  let after := session.proceed (call.carryOut ⟨session.drive.limited limit, session.volume⟩)
  { after with drive := after.drive.unlimited }

/-- An interrupted call goes on as if its writes had ended at the limit and the next one had
failed. -/
theorem Mounted.interrupt_eq (h : session.Mounted sectors)
    {outcome : Except Stop (Answer × Volume)} {writes : List Write}
    (hrun : Performs (call.perform session.volume) session.image sectors outcome writes)
    (limit : Nat) :
    ∃ final : Drive, final.disk.Holds (session.image.putAll (writes.take limit)) sectors ∧
      call.perform session.volume (session.drive.limited limit) = conclude
        (if limit < writes.length then .error (.error (.device .injected)) else outcome) final ∧
      session.interrupt call limit = session.resume (conclude
        (if limit < writes.length then .error (.error (.device .injected)) else outcome)
        final.unlimited) := by
  obtain ⟨final, hholds, hfinal⟩ := hrun.limited h.holds limit
  refine ⟨final, hholds, hfinal, ?_⟩
  rw [interrupt, proceed_carryOut, hfinal]
  split
  · rfl
  · cases outcome <;> rfl

/-- What an interrupted call leaves on the disk. -/
theorem Mounted.image_of_interrupt (h : session.Mounted sectors)
    {outcome : Except Stop (Answer × Volume)} {writes : List Write}
    (hrun : Performs (call.perform session.volume) session.image sectors outcome writes)
    (limit : Nat) :
    (session.interrupt call limit).image = session.image.putAll (writes.take limit) := by
  obtain ⟨final, hholds, -, hsession⟩ := h.interrupt_eq hrun limit
  rw [hsession]
  split
  · exact hholds.sector_eq
  · cases outcome with
    | error stop => exact hholds.sector_eq
    | ok result => exact hholds.sector_eq

/-- A call that has more writes than the limit is stopped at it. -/
theorem Mounted.stopped_of_limited (h : session.Mounted sectors)
    {outcome : Except Stop (Answer × Volume)} {writes : List Write}
    (hrun : Performs (call.perform session.volume) session.image sectors outcome writes)
    {limit : Nat} (hlimit : limit < writes.length) :
    ∃ final, call.perform session.volume (session.drive.limited limit) =
      .error (.error (.device .injected)) final := by
  obtain ⟨final, -, hfinal⟩ := hrun.limited h.holds limit
  rw [if_pos hlimit] at hfinal
  exact ⟨final, hfinal⟩

/-- A removal that is cut short once its entry is written is followed like the whole removal. -/
theorem Mounted.sameTree_interrupt (h : session.Mounted sectors) {path : Path} {parent : Place}
    {directory : Nat} {name : String} {index : Fin entryCount} {target : Target}
    {table map : List Write} {outcome : Except Stop (Answer × Volume)} {limit : Nat}
    (hnames : session.image.Names path parent directory name index target)
    (hremoved : session.image.Removed sectors directory index target table map)
    (hrun : Performs (call.perform session.volume) session.image sectors outcome (table ++ map))
    (hentered : entrySize * index / sectorSize < limit) :
    (session.step call).image.SameTree (session.interrupt call limit).image := by
  rw [h.image_of_interrupt hrun, h.image_of_performs hrun]
  exact hremoved.sameTree_after h.whole hnames limit hentered

/-- A removal that is cut short leaves the tree that was there or the one that the whole removal
would leave, with the same files under the same names; all of it is marked, no sector belongs to
two files or twice to one, and what is marked besides belonged to something that is gone. -/
theorem Reached.removal_cut (h : Reached sectors session) {text : String}
    (hcall : call = .remove text ∨ call = .removeTree text) (limit : Nat) :
    let cut := (session.interrupt call limit).image
    (∃ whole, (whole = session.image ∨ whole = (session.step call).image) ∧
      whole.SameTree cut ∧ ∀ other, cut.locate other = whole.locate other) ∧
    (∀ owner sector, cut.Owns owner sector → (cut.freeMap sectors).isUsed sector = true) ∧
    (∀ owner other sector, cut.Owns owner sector → cut.Owns other sector → owner = other) ∧
    (∀ owner head, cut.headOf owner = some head → (cut.extent head).Nodup) ∧
    ∀ sector, (cut.freeMap sectors).isUsed sector = true →
      (∃ owner, cut.Owns owner sector) ∨
        ∃ place, session.image.Owns (.item place) sector ∧ cut.targetAt place = none := by
  have hvalid := h.valid
  obtain ⟨outcome, writes, hrun, heffect⟩ := hvalid.performed_of_removal hcall
  intro cut
  have hcut : cut = session.image.putAll (writes.take limit) :=
    hvalid.image_of_interrupt hrun limit
  have hstep := hvalid.image_of_performs hrun
  have hnodup {image : Image} (hsound : image.Sound sectors) (owner : Owner) (head : Nat)
      (howner : image.headOf owner = some head) : (image.extent head).Nodup := by
    obtain ⟨node, hintact⟩ := hsound.intact owner head howner
    exact hintact.nodup
  obtain ⟨cause, -, rfl⟩ | ⟨path, parent, directory, name, index, target, table, map, -, hnames,
    hremoved, -, rfl⟩ := heffect.of_removal hcall
  · rw [List.take_nil, Image.putAll_nil] at hcut
    rw [hcut]
    exact ⟨⟨_, .inl rfl, .refl _, fun _ ↦ rfl⟩, hvalid.sound.marked, hvalid.sound.owner_eq,
      hnodup hvalid.whole, fun sector hused ↦ .inl (hvalid.sound.owned sector hused)⟩
  · have hsound := hremoved.sound_cut hvalid.whole hnames limit
    rw [hcut, hstep]
    refine ⟨?_, hsound.marked, hsound.owner_eq, hnodup hsound, fun sector hused ↦
      hremoved.owned_cut hnames limit hvalid.sound hused⟩
    obtain hbefore | hafter := hremoved.sameTree_cut hvalid.whole hnames limit
    · exact ⟨_, .inl rfl, hbefore, hbefore.locate_eq⟩
    · exact ⟨_, .inr rfl, hafter, hafter.locate_eq⟩

/-- The only file of a new volume is removed, and the disk fails after three writes. The removal is
stopped then, and its file is gone already. -/
theorem removal_cut_first : ∃ volume formatted, Volume.format (.blank 64) = .ok volume formatted ∧
    let session := (begin formatted volume).step (.create "/a" 300)
    let cut := (session.interrupt (.remove "/a") 3).image
    (∃ sector, session.LeadsTo "/a" ⟨sector, false⟩) ∧
      (∃ final, (Call.remove "/a").perform session.volume (session.drive.limited 3) =
        .error (.error (.device .injected)) final) ∧
      (session.step (.remove "/a")).image.SameTree cut ∧ cut.locate "/a" = .error .notFound ∧
      ∀ owner sector, cut.Owns owner sector → (cut.freeMap 64).isUsed sector = true := by
  obtain ⟨volume, formatted, hformat, hplain, sector, hto⟩ := exists_plain_created
  obtain ⟨begun, blank, hbegun, hreached, hempty, hlength⟩ := exists_reached_small
  obtain ⟨rfl, rfl⟩ := EStateM.Result.ok.inj (hformat.symm.trans hbegun)
  have hparse : Path.parse "/a" = .ok ⟨["a"]⟩ := by rfl
  have hindex := hreached.valid.index?_created (.file "/a" 300) hempty hparse (by decide)
    (Image.accepts_of_empty hempty hparse (by rfl) (by rw [hlength]; decide))
  obtain ⟨-, hmarked, -⟩ :=
    Reached.removal_cut hplain.reached (.inl rfl : Call.remove "/a" = .remove "/a" ∨ _) 3
  refine ⟨volume, formatted, hformat, ⟨sector, hto⟩, ?_⟩
  have hvalid := hplain.reached.valid
  have hlegible := hplain.legible
  generalize (begin formatted volume).step (.create "/a" 300) = session at *
  obtain ⟨hdone, path, directory, hfound, -, hloses⟩ := hvalid.remove_done hlegible hto
    fun hfalse ↦ absurd hfalse Bool.false_ne_true
  obtain rfl : path = ⟨["a"]⟩ := Except.ok.inj (hfound.symm.trans hparse)
  obtain ⟨outcome, writes, hrun, heffect⟩ := hvalid.performed_of_removal (.inl rfl)
  obtain ⟨cause, rfl, -⟩ | ⟨path, parent, directory, name, index, target, table, map, hpath, hnames,
    hremoved, -, rfl⟩ := heffect.of_removal (.inl rfl)
  · have hrefused := hvalid.answer_of_performs hrun
    rw [hdone] at hrefused
    contradiction
  obtain rfl := Except.ok.inj (hparse.symm.trans hpath)
  obtain rfl : rootSector = directory := Except.ok.inj hnames.parent_eq
  obtain rfl : "a" = name := Option.some.inj hnames.name_eq
  obtain rfl : 0 = index := Option.some.inj (hindex.symm.trans hnames.index_eq)
  -- The entry lies in the first sector of the table, and the table in ten of them.
  have hshort : 3 < (table ++ map).length := by
    rw [List.length_append, hremoved.length_table]
    omega
  have htree : (session.step (.remove "/a")).image.SameTree
      (session.interrupt (.remove "/a") 3).image :=
    hvalid.sameTree_interrupt hnames hremoved hrun (by decide)
  refine ⟨hvalid.stopped_of_limited hrun hshort, htree, ?_, hmarked⟩
  have hgone := hloses.gone "/a" _ hparse (List.prefix_refl _)
  have hafter := (hvalid.step (show session.Permits (.remove "/a") from trivial)).1
  rw [htree.locate_eq]
  exact hafter.resolve_eq_error.mp hgone

end Session

end SectorFS
