import SectorFS.Proofs.Sessions.Interruptions
import SectorFS.Proofs.Sessions.Kept
import SectorFS.Proofs.Sessions.Openings

/-!
# Sessions in which removals fail

A removal writes the map sector by sector, and it closes the files that it takes away only
after the last of these writes. If the disk fails in between, the files stay open, although the
part of the map that was written has given up sectors of theirs.

A session is followed here together with the files that programs hold, and any removal in it
can be cut short. As long as no cut gives up a sector of an open file, every open file is
kept, also one that no path leads to any more, and what is created later shares no sector with
it. If a cut does give one up, then the file is open and the sector is free. It takes a map of
more than one sector for that.

Nothing is said of programs that write through handles whose sectors were given up.
-/

namespace SectorFS

open SectorFS.Geometry

variable {sectors limit : Nat} {session : Session} {call : Call} {held : Set (Nat × Node)}

/-- A directory of the volume has its root node at the sector. -/
def Image.HasDirectory (image : Image) (sector : Nat) : Prop :=
  ∃ place, image.targetAt place = some ⟨sector, true⟩

namespace Session

/-! ## Held files -/

/-- The files that programs hold after a call: those that they held or that it opened, as far as all
their sectors are marked. -/
def retained (sectors : Nat) (held : Set (Nat × Node)) :
    EStateM.Result Stop Drive (Answer × Volume) → Set (Nat × Node)
  | .ok (answer, volume) drive =>
    {file ∈ held ∪ {file | ∃ handle, answer.opened volume = some handle ∧
      file = (handle.sector, handle.node)} | Image.Marked drive.disk.sector sectors file.1}
  | .error _ drive => {file ∈ held | Image.Marked drive.disk.sector sectors file.1}

/-- Writes go to files that are held, and not to directories of the volume. -/
def Allows (session : Session) (held : Set (Nat × Node)) : Call → Prop
  | .write id _ => ∀ index handle, session.volume.slot? id = some (index, handle) →
      ¬ session.image.HasDirectory handle.sector
  | .writeAt handle _ _ =>
    (handle.sector, handle.node) ∈ held ∧ ¬ session.image.HasDirectory handle.sector
  | _ => True

/-- The session is mounted, the files that programs hold are kept, and the open files are held. -/
structure Holding (session : Session) (sectors : Nat) (held : Set (Nat × Node)) : Prop
    extends session.Mounted sectors where
  keeps : session.image.Keeps sectors held
  slots : ∀ (index : Fin maxOpenFiles) (handle : Handle),
    session.volume.table[index] = some handle → (handle.sector, handle.node) ∈ held

namespace Holding

/-! ## One call -/

/-- What is opened is held with the other files, since nothing is changed then. -/
theorem keeps_opened (h : session.Holding sectors held) {opened : Option Handle} {changed : Image}
    (hspares : session.image.Spares changed sectors held)
    (hopened : ∀ handle, opened = some handle →
      session.image.Serves handle ∧ changed = session.image) :
    changed.Keeps sectors {file ∈ held ∪ {file | ∃ handle, opened = some handle ∧
      file = (handle.sector, handle.node)} | changed.Marked sectors file.1} := by
  cases opened with
  | none =>
    have hnone : {file : Nat × Node | ∃ handle : Handle, none = some handle ∧
        file = (handle.sector, handle.node)} = ∅ := by
      ext file
      simp
    rw [hnone, Set.union_empty]
    exact h.keeps.change h.whole hspares
  | some handle =>
    obtain ⟨hserves, rfl⟩ := hopened handle rfl
    obtain ⟨⟨place, target, hplace, hsector⟩, hnode, -⟩ := hserves
    refine Image.Keeps.change (h.keeps.union h.whole ?_) h.whole (.refl h.whole _)
    rintro file ⟨same, hsame, rfl⟩
    obtain rfl := Option.some.inj hsame
    exact ⟨⟨place, by rw [Image.headOf_item hplace, hsector]⟩, hnode⟩

/-- A session goes on after a change that spares the held files. -/
theorem of_spares {next : Session} {holding : Set (Nat × Node)}
    (hholds : next.drive.disk.Holds next.image sectors) (hfaults : next.drive.disk.faults = .none)
    (hspares : session.image.Spares next.image sectors held)
    (hattached : next.volume.Attached session.image) (hkeeps : next.image.Keeps sectors holding)
    (hlive : ∀ file ∈ next.live,
      next.image.HasFile file.1 ∧ next.image.node? file.1 = some file.2)
    (hslots : ∀ (index : Fin maxOpenFiles) (handle : Handle),
      next.volume.table[index] = some handle →
        handle.position ≤ handle.length ∧ (handle.sector, handle.node) ∈ holding) :
    next.Holding sectors holding where
  holds := hholds
  faults_eq := hfaults
  whole := hspares.sound
  attached := hattached.congr hspares.unmoved
  carries index handle hslot :=
    ⟨hkeeps.intact _ (hslots index handle hslot).2, (hslots index handle hslot).1⟩
  live := hlive
  keeps := hkeeps
  slots index handle hslot := (hslots index handle hslot).2

/-- A call leaves the held files held as far as it spares them and the open files stay marked. -/
theorem resume (h : session.Holding sectors held) {outcome : Except Stop (Answer × Volume)}
    {final : Drive} {changed : Image} (hholds : final.disk.Holds changed sectors)
    (hfaults : final.disk.faults = .none) (hspares : session.image.Spares changed sectors held)
    (hok : ∀ answer volume, outcome = .ok (answer, volume) → volume.Attached session.image ∧
      (∀ handle, answer.opened volume = some handle →
        session.image.Serves handle ∧ changed = session.image) ∧
      ∀ (index : Fin maxOpenFiles) (handle : Handle), volume.table[index] = some handle →
        handle.position ≤ handle.length ∧ changed.Marked sectors handle.sector ∧
          ((handle.sector, handle.node) ∈ held ∨ answer.opened volume = some handle))
    (herror : ∀ stop, outcome = .error stop → ∀ (index : Fin maxOpenFiles) (handle : Handle),
      session.volume.table[index] = some handle → changed.Marked sectors handle.sector) :
    (session.resume (conclude outcome final)).Holding sectors
      (retained sectors held (conclude outcome final)) := by
  obtain rfl : final.disk.sector = changed := hholds.sector_eq
  have hlive {file : Nat × Node} (hfile : file ∈ session.live) :
      Image.node? final.disk.sector file.1 = some file.2 := by
    obtain ⟨⟨place, hplace⟩, hnode⟩ := h.live file hfile
    rw [Image.node?_of_spine (hspares.unmoved _ _ (Image.headOf_item hplace)), hnode]
  cases outcome with
  | error stop =>
    refine of_spares hholds hfaults hspares h.attached (h.keeps.change h.whole hspares)
      (fun file hfile ↦ ⟨hfile.2, hlive hfile.1⟩) fun index handle hslot ↦ ?_
    exact ⟨(h.carries index handle hslot).position_le, h.slots index handle hslot,
      herror stop rfl index handle hslot⟩
  | ok result =>
    obtain ⟨answer, volume⟩ := result
    obtain ⟨hattached, hopened, htable⟩ := hok answer volume rfl
    refine of_spares hholds hfaults hspares hattached (h.keeps_opened hspares hopened) ?_ ?_
    · rintro file ⟨hold | ⟨handle, hhandle, rfl⟩, hfile⟩
      · exact ⟨hfile, hlive hold⟩
      · obtain ⟨hserves, hsame⟩ := hopened handle hhandle
        have hnode := hserves.node_eq
        rw [← hsame] at hnode
        exact ⟨hfile, hnode⟩
    · intro index handle hslot
      obtain ⟨hposition, hmarked, hheld | hnew⟩ := htable index handle hslot
      · exact ⟨hposition, .inl hheld, hmarked⟩
      · exact ⟨hposition, .inr ⟨handle, hnew, rfl⟩, hmarked⟩

section Effect

variable (h : session.Holding sectors held) (hallows : session.Allows held call)

include h hallows

/-- What an allowed call writes spares the files that are held. -/
theorem spares_effect {outcome : Except Stop (Answer × Volume)} {writes : List Write}
    (heffect : session.Effect sectors call outcome writes) :
    session.image.Spares (session.image.putAll writes) sectors held := by
  have hsame : session.image.Spares (session.image.putAll []) sectors held := .refl h.whole held
  cases heffect with
  | refused | listed | handed | opened | read | closed | remounted => exact hsame
  | created hcall hparse hadmits hcreated =>
    exact hcreated.spares h.whole hadmits hcall.size_eq h.keeps
  | @removed _ _ _ _ _ _ _ _ table map hcall hparse hnames hremoved =>
    have hspares := hremoved.spares h.whole hnames h.keeps (table ++ map).length
    rwa [List.take_length] at hspares
  | @written _ _ index handle _ hslot hsplices =>
    have hfile := h.slots index handle (Volume.table_of_slot? hslot).1
    exact (h.keeps.spares_written h.whole hfile
      (fun place hplace ↦ hallows index handle hslot ⟨place, hplace⟩) hsplices).1
  | writtenAt _ hsplices =>
    exact (h.keeps.spares_written h.whole hallows.1
      (fun place hplace ↦ hallows.2 ⟨place, hplace⟩) hsplices).1

/-- A held file that is open after a call has all its sectors marked then. -/
theorem marked_effect {answer : Answer} {volume : Volume} {writes : List Write}
    (heffect : session.Effect sectors call (.ok (answer, volume)) writes)
    {index : Fin maxOpenFiles} {handle : Handle} (hslot : volume.table[index] = some handle)
    (hfile : (handle.sector, handle.node) ∈ held) :
    (session.image.putAll writes).Marked sectors handle.sector := by
  have hspares := h.spares_effect hallows heffect
  have hmarked := h.keeps.marked _ hfile
  cases heffect with
  | listed | handed | opened | read | closed | remounted => exact hmarked
  | created hcall hparse hadmits hcreated =>
    exact hmarked.congr (hspares.spine _ hfile)
      fun member _ hused ↦ by rw [hcreated.isUsed_final h.whole hadmits, hused, Bool.true_or]
  | removed hcall hparse hnames hremoved =>
    -- The table goes on with the files whose root nodes the new map holds.
    rw [Volume.table_keepLive, Option.filter_eq_some_iff,
      ← hremoved.freeMap_final h.whole hnames] at hslot
    exact hremoved.marked_final h.whole hnames h.keeps hfile hslot.2
  | @written _ _ place found _ hfound hsplices =>
    have hopen := h.slots place found (Volume.table_of_slot? hfound).1
    refine hmarked.congr (hspares.spine _ hfile) fun member _ hused ↦ ?_
    rwa [(h.keeps.spares_written h.whole hopen
      (fun other hother ↦ hallows place found hfound ⟨other, hother⟩) hsplices).2]
  | writtenAt _ hsplices =>
    refine hmarked.congr (hspares.spine _ hfile) fun member _ hused ↦ ?_
    rwa [(h.keeps.spares_written h.whole hallows.1
      (fun other hother ↦ hallows.2 ⟨other, hother⟩) hsplices).2]

/-- A call that is carried out to its end leaves the open files held. -/
theorem resume_effect {outcome : Except Stop (Answer × Volume)} {writes : List Write}
    (heffect : session.Effect sectors call outcome writes) {final : Drive}
    (hholds : final.disk.Holds (session.image.putAll writes) sectors)
    (hfaults : final.disk.faults = .none) :
    (session.resume (conclude outcome final)).Holding sectors
      (retained sectors held (conclude outcome final)) := by
  refine h.resume hholds hfaults (h.spares_effect hallows heffect) ?_ ?_
  · rintro answer volume rfl
    refine ⟨heffect.attached h.attached, fun handle hopened ↦ ?_, fun index handle hslot ↦ ?_⟩
    · obtain ⟨hserves, rfl⟩ := heffect.of_opened hopened
      exact ⟨hserves, rfl⟩
    · obtain ⟨text, target, -, rfl, -, -, -, hserves, rfl⟩ |
        ⟨-, old, position, hold, hposition, rfl⟩ := heffect.slot_cases h.toMounted hslot
      · obtain ⟨⟨place, met, hplace, hsector⟩, -, hposition⟩ := hserves
        have hopened : (Answer.identifier (index + 1)).opened volume = some handle := by
          rw [Answer.opened, Volume.slot?_of_table hslot, Option.map_some]
        have hhead : session.image.headOf (.item place) = some handle.sector := by
          rw [Image.headOf_item hplace, hsector]
        exact ⟨hposition, h.whole.marked_of_headOf hhead, .inr hopened⟩
      · have hfile := h.slots index old hold
        exact ⟨hposition, h.marked_effect hallows heffect hslot hfile, .inl hfile⟩
  · rintro stop rfl index handle hslot
    obtain ⟨-, rfl⟩ := heffect.of_error
    exact h.keeps.marked _ (h.slots index handle hslot)

/-- Every allowed call leaves the open files held. -/
theorem step : (session.step call).Holding sectors
    (retained sectors held (call.perform session.volume session.drive)) := by
  have hintact (handle : Handle) (position : Nat) (data : ByteArray)
      (hcall : call = .writeAt handle position data) :
      session.image.Intact sectors handle.sector handle.node := by
    subst hcall
    exact h.keeps.intact _ hallows.1
  rw [Session.step_eq_resume]
  rcases h.performed_or_looks hintact with ⟨outcome, writes, hrun, heffect⟩ | hlooks
  · obtain ⟨final, hfinal, hholds, hfaults⟩ := hrun.run h.holds h.faults_eq
    rw [hfinal]
    exact h.resume_effect hallows heffect hholds hfaults
  · obtain ⟨outcome, final, hfinal, halike, hok⟩ := hlooks.perform_eq
    rw [hfinal]
    refine h.resume (halike.holds h.holds) (halike.faults_eq.trans h.faults_eq)
      (.refl h.whole held) ?_ ?_
    · rintro answer volume rfl
      obtain ⟨rfl, hopened⟩ := hok answer volume rfl
      refine ⟨h.attached, fun handle hhandle ↦ ?_, fun index handle hslot ↦ ?_⟩
      · rw [hopened] at hhandle
        contradiction
      · have hfile := h.slots index handle hslot
        exact ⟨(h.carries index handle hslot).position_le, h.keeps.marked _ hfile, .inl hfile⟩
    · rintro stop rfl index handle hslot
      exact h.keeps.marked _ (h.slots index handle hslot)

end Effect

end Holding

/-- What a creation brings to a place shares no sector with an open file. -/
theorem Holding.apart_of_creation (h : session.Holding sectors held) {text : String} {size : Nat}
    {isDirectory : Bool} (hcall : call.Creates text size isDirectory)
    {index : Fin maxOpenFiles} {handle : Handle} (hslot : session.volume.table[index] = some handle)
    {place : Place} {target : Target} (hnone : session.image.targetAt place = none)
    (hplace : (session.step call).image.targetAt place = some target) :
    ∀ member ∈ (session.step call).image.extent handle.sector,
      member ∉ (session.step call).image.extent target.sector := by
  obtain ⟨path, parent, directory, name, entry, height, sector, node, fresh, table, map, -,
    hadmits, hrun, hcreated⟩ | ⟨-, cause, -, hrun⟩ := h.create_performs hcall
  · have hfile := h.slots index handle hslot
    have hspares := hcreated.spares h.whole hadmits hcall.size_eq h.keeps
    rw [h.image_of_performs hrun] at hplace ⊢
    intro member hmember hnew
    rw [Image.extent_congr (hspares.spine _ hfile)] at hmember
    obtain ⟨head, howner, -⟩ := hspares.owned (.item place) member
      (h.keeps.marked _ hfile member hmember) ⟨target.sector, Image.headOf_item hplace, hnew⟩
    rw [Image.headOf, hnone] at howner
    contradiction
  · rw [h.image_of_performs hrun, Image.putAll_nil, hnone] at hplace
    contradiction

/-! ## A removal that is cut short -/

/-- In a removal that is cut short after so many writes, no sector of an open file is given up
without closing the file: the bit of the sector is not reached, or the removal comes to its end. -/
def Harmless (session : Session) (sectors : Nat) (call : Call) (limit : Nat) : Prop :=
  ∀ (index : Fin maxOpenFiles) (handle : Handle), session.volume.table[index] = some handle →
    ∀ member ∈ session.image.extent handle.sector,
      ((session.step call).image.freeMap sectors).isUsed member = false →
        limit ≤ 10 + member / 8 / sectorSize ∨
          10 + pieces (FreeMap.byteCount sectors) sectorSize ≤ limit

/-- On a disk whose map is a single sector a removal can be cut short anywhere. -/
theorem harmless_of_small (hsmall : sectors ≤ 8 * sectorSize) (session : Session) (call : Call)
    (limit : Nat) : session.Harmless sectors call limit := by
  intro index handle hslot member hmember hfreed
  have hbytes : FreeMap.byteCount sectors ≤ sectorSize := by
    unfold FreeMap.byteCount
    simp only [sectorSize] at *
    omega
  have hmap : pieces (FreeMap.byteCount sectors) sectorSize ≤ 1 :=
    (pieces_le_iff (by decide)).mpr (by omega)
  generalize member / 8 / sectorSize = bit
  omega

namespace Holding

section Removal

variable (h : session.Holding sectors held) {text : String}
  (hcall : call = .remove text ∨ call = .removeTree text)

include h hcall

/-- A sector of an open file is marked after a removal was cut short, unless the whole removal gives
it up and its bit was reached. -/
theorem isUsed_interrupt (limit : Nat) {index : Fin maxOpenFiles} {handle : Handle}
    (hslot : session.volume.table[index] = some handle) {member : Nat}
    (hmember : member ∈ session.image.extent handle.sector) :
    ((session.interrupt call limit).image.freeMap sectors).isUsed member = true ↔
      (((session.step call).image.freeMap sectors).isUsed member = false →
        limit ≤ 10 + member / 8 / sectorSize) := by
  obtain ⟨outcome, writes, hrun, heffect⟩ := h.performed_of_removal hcall
  have hused := h.keeps.marked _ (h.slots index handle hslot) member hmember
  rw [h.image_of_interrupt hrun, h.image_of_performs hrun]
  obtain ⟨cause, -, rfl⟩ | ⟨path, parent, directory, name, place, target, table, map, -, hnames,
    hremoved, -, rfl⟩ := heffect.of_removal hcall
  · simp [hused]
  · exact hremoved.isUsed_cut_iff h.whole hnames limit hused

/-- A removal that does not come to its end closes nothing. -/
theorem volume_of_interrupt
    (hlimit : limit < 10 + pieces (FreeMap.byteCount sectors) sectorSize) :
    (session.interrupt call limit).volume = session.volume := by
  obtain ⟨outcome, writes, hrun, heffect⟩ := h.performed_of_removal hcall
  obtain ⟨final, -, -, hsession⟩ := h.interrupt_eq hrun limit
  rw [hsession]
  obtain ⟨cause, rfl, rfl⟩ | ⟨path, parent, directory, name, place, target, table, map, -, -,
    hremoved, -, rfl⟩ := heffect.of_removal hcall
  · rw [List.length_nil, if_neg (Nat.not_lt_zero limit)]
    rfl
  · rw [List.length_append, hremoved.length_table, hremoved.length_map, if_pos hlimit]
    rfl

/-- A removal that is cut short where it is harmless leaves the open files held. -/
theorem interrupt (hharmless : session.Harmless sectors call limit) :
    (session.interrupt call limit).Holding sectors
      (retained sectors held (call.perform session.volume (session.drive.limited limit))) := by
  have hallows : session.Allows held call := by rcases hcall with rfl | rfl <;> trivial
  obtain ⟨outcome, writes, hrun, heffect⟩ := h.performed_of_removal hcall
  obtain ⟨final, hholds, hfinal, hsession⟩ := h.interrupt_eq hrun limit
  have himage := h.image_of_interrupt hrun limit
  have hdisk : final.unlimited.disk.Holds (session.image.putAll (writes.take limit)) sectors :=
    ⟨hholds.sectorCount_eq, hholds.le_size, hholds.sector_eq⟩
  have hretained (result : Except Stop (Answer × Volume)) :
      retained sectors held (conclude result final) =
        retained sectors held (conclude result final.unlimited) := by
    cases result <;> rfl
  rw [hsession, hfinal, hretained]
  split
  · rename_i hlimit
    obtain ⟨cause, -, rfl⟩ | ⟨path, parent, directory, name, place, target, table, map, -, hnames,
      hremoved, -, rfl⟩ := heffect.of_removal hcall
    · exact absurd hlimit (Nat.not_lt_zero limit)
    · have hspares := hremoved.spares h.whole hnames h.keeps limit
      refine h.resume hdisk rfl hspares (by simp) fun stop _ index handle hslot ↦ ?_
      have hfile := h.slots index handle hslot
      refine (h.keeps.marked _ hfile).congr (hspares.spine _ hfile) fun member hmember _ ↦ ?_
      rw [← himage, h.isUsed_interrupt hcall limit hslot hmember]
      intro hfreed
      rw [List.length_append, hremoved.length_table, hremoved.length_map] at hlimit
      rcases hharmless index handle hslot member hmember hfreed with hearly | hlate
      · exact hearly
      · exact absurd hlimit (Nat.not_lt_of_le hlate)
  · rename_i hlimit
    rw [List.take_of_length_le (Nat.le_of_not_lt hlimit)] at hdisk
    exact h.resume_effect hallows heffect hdisk rfl

/-- A file that is open after a removal was cut short was open before, with the same extent. -/
theorem extent_of_interrupt (limit : Nat) {index : Fin maxOpenFiles} {handle : Handle}
    (hslot : session.volume.table[index] = some handle) :
    (session.interrupt call limit).image.extent handle.sector =
      session.image.extent handle.sector := by
  obtain ⟨outcome, writes, hrun, heffect⟩ := h.performed_of_removal hcall
  have hfile := h.slots index handle hslot
  rw [h.image_of_interrupt hrun]
  obtain ⟨cause, -, rfl⟩ | ⟨path, parent, directory, name, place, target, table, map, -, hnames,
    hremoved, -, rfl⟩ := heffect.of_removal hcall
  · rw [List.take_nil, Image.putAll_nil]
  · exact Image.extent_congr ((hremoved.spares h.whole hnames h.keeps limit).spine _ hfile)

/-- If the open files are marked wherever a removal was cut short, then it is harmless there. -/
theorem harmless_of_marked
    (hmarked : ∀ (index : Fin maxOpenFiles) (handle : Handle),
      (session.interrupt call limit).volume.table[index] = some handle →
        (session.interrupt call limit).image.Marked sectors handle.sector) :
    session.Harmless sectors call limit := by
  intro index handle hslot member hmember hfreed
  by_cases hlimit : limit < 10 + pieces (FreeMap.byteCount sectors) sectorSize
  · left
    have hopen : (session.interrupt call limit).volume.table[index] = some handle := by
      rw [h.volume_of_interrupt hcall hlimit, hslot]
    apply (h.isUsed_interrupt hcall limit hslot hmember).mp _ hfreed
    apply hmarked index handle hopen
    rw [h.extent_of_interrupt hcall limit hslot]
    exact hmember
  · exact .inr (Nat.le_of_not_lt hlimit)

end Removal

end Holding

/-! ## Runs -/

/-- The sessions that start with a successful format and go on with allowed calls and with removals
that are cut short where it is harmless, and the files that programs hold in them. -/
inductive Strained (sectors : Nat) : Session → Set (Nat × Node) → Prop
  | format {drive formatted : Drive} {volume : Volume}
      (hcount : drive.disk.sectorCount = sectors)
      (hsize : sectors * sectorSize ≤ drive.disk.medium.size)
      (hfaults : drive.disk.faults = .none)
      (hformat : Volume.format drive = .ok volume formatted) :
      Strained sectors (begin formatted volume) ∅
  | call {session : Session} {held : Set (Nat × Node)} {call : Call}
      (hsession : Strained sectors session held) (hallows : session.Allows held call) :
      Strained sectors (session.step call)
        (retained sectors held (call.perform session.volume session.drive))
  | cut {session : Session} {held : Set (Nat × Node)} {call : Call} {text : String} {limit : Nat}
      (hsession : Strained sectors session held)
      (hcall : call = .remove text ∨ call = .removeTree text)
      (hharmless : session.Harmless sectors call limit) :
      Strained sectors (session.interrupt call limit)
        (retained sectors held (call.perform session.volume (session.drive.limited limit)))

/-- Formatting a blank disk starts such a session. -/
theorem Strained.blank {formatted : Drive} {volume : Volume}
    (hformat : Volume.format (.blank sectors) = .ok volume formatted) :
    Strained sectors (begin formatted volume) ∅ :=
  .format rfl (size_zeroBytes _).ge rfl hformat

theorem Strained.holding (h : Strained sectors session held) : session.Holding sectors held := by
  induction h with
  | format hcount hsize hfaults hformat =>
    obtain ⟨hvalid, -, hclosed⟩ := begin_valid hcount hsize hfaults hformat
    refine ⟨hvalid.toMounted, .empty _ sectors, fun index handle hslot ↦ ?_⟩
    rw [begin, hclosed] at hslot
    contradiction
  | call hsession hallows ih => exact ih.step hallows
  | cut hsession hcall hharmless ih => exact ih.interrupt hcall hharmless

/-- Every sector of an open file is marked and belongs to no other file, and a creation gives none
of them to the file that it adds. A removal that is cut short keeps it so exactly where it is
harmless, and it is harmless everywhere if the map is a single sector. -/
theorem Strained.slots_marked (h : Strained sectors session held) :
    (∀ (index : Fin maxOpenFiles) (handle : Handle), session.volume.table[index] = some handle →
      (session.image.freeMap sectors).isUsed handle.sector = true ∧
      ∀ member ∈ session.image.extent handle.sector,
        (session.image.freeMap sectors).isUsed member = true ∧
        ∀ owner head, session.image.headOf owner = some head →
          member ∈ session.image.extent head → head = handle.sector) ∧
    (∀ (call : Call) (text : String) (size : Nat) (isDirectory : Bool),
      call.Creates text size isDirectory → ∀ (index : Fin maxOpenFiles) (handle : Handle),
        session.volume.table[index] = some handle →
          (session.step call).volume.table[index] = some handle ∧
          ∀ place target, session.image.targetAt place = none →
            (session.step call).image.targetAt place = some target →
              ∀ member ∈ (session.step call).image.extent handle.sector,
                member ∉ (session.step call).image.extent target.sector) ∧
    (∀ (call : Call) (text : String) (limit : Nat),
      call = .remove text ∨ call = .removeTree text →
        ((∀ (index : Fin maxOpenFiles) (handle : Handle),
          (session.interrupt call limit).volume.table[index] = some handle →
            ∀ member ∈ (session.interrupt call limit).image.extent handle.sector,
              ((session.interrupt call limit).image.freeMap sectors).isUsed member = true) ↔
          session.Harmless sectors call limit)) ∧
    (sectors ≤ 8 * sectorSize → ∀ (call : Call) (limit : Nat),
      session.Harmless sectors call limit) := by
  have hholding := h.holding
  refine ⟨fun index handle hslot ↦ ?_, fun call text size isDirectory hcall index handle hslot ↦ ?_,
    fun call text limit hcall ↦ ⟨hholding.harmless_of_marked hcall, fun hharmless ↦ ?_⟩,
    fun hsmall call limit ↦ harmless_of_small hsmall session call limit⟩
  · have hfile := hholding.slots index handle hslot
    have hmarked := hholding.keeps.marked _ hfile
    refine ⟨hmarked _ (Image.mem_extent_self _ _), fun member hmember ↦
      ⟨hmarked member hmember, fun owner head howner hshared ↦ ?_⟩⟩
    have hsame := hholding.keeps.headOf_eq hholding.whole hfile hmember ⟨head, howner, hshared⟩
    exact Option.some.inj (howner.symm.trans hsame)
  · refine ⟨by rw [hholding.volume_of_creates hcall, hslot], fun place target hnone hplace ↦ ?_⟩
    exact hholding.apart_of_creation hcall hslot hnone hplace
  · intro index handle hslot
    have hafter := hholding.interrupt hcall hharmless
    exact hafter.keeps.marked _ (hafter.slots index handle hslot)

/-! ## On a new volume -/

/-- On a disk whose map is two sectors a file is created, and its root node has a bit in the first
of them. -/
theorem exists_created_large : ∃ volume formatted,
    Volume.format (.blank 2048) = .ok volume formatted ∧
      Plain 2048 ((begin formatted volume).step (.create "/a" 10)) ∧ ∃ sector < 1024,
        ((begin formatted volume).step (.create "/a" 10)).image.locate "/a" =
          .ok ⟨sector, false⟩ := by
  obtain ⟨volume, formatted, hformat, hreached, htable, hmap⟩ :=
    @exists_reached 2048 0 ⟨by decide, by decide⟩
  have hcount :
      2 + sectorNeeds ((0 : Fin maxLevel).val + 1) (FreeMap.byteCount 2048) + 10 = 14 := by decide
  rw [hcount] at hmap
  have hvalid := hreached.valid
  have hsession : Plain 2048 ((begin formatted volume).step (.create "/a" 10)) :=
    (Plain.blank hformat).creates (.file "/a" 10) (by decide)
  obtain ⟨path, parent, directory, name, index, height, sector, node, fresh, table, map, hparse,
    hadmits, hrun, hcreated⟩ | ⟨hnot, -⟩ := hvalid.create_performs (.file "/a" 10)
  · refine ⟨volume, formatted, hformat, hsession, sector, ?_, ?_⟩
    · obtain rfl : (0 : Fin maxLevel) = height :=
        Option.some.inj ((by decide : heightFor 10 = some 0).symm.trans hadmits.height_eq)
      have hneeds : sectorNeeds ((0 : Fin maxLevel).val + 1) 10 + 1 = 2 := by decide
      have hmember := Image.mem_extent_self ((begin formatted volume).image.putAll fresh) sector
      rw [hcreated.extent_eq, Image.claimed, hmap, hneeds, FreeMap.take_free_filled (by decide),
        List.mem_range'_1] at hmember
      omega
    · rw [hvalid.image_of_performs hrun]
      exact (hcreated.gains hvalid.whole hadmits hparse (by decide) (by simp)).locate_eq
  · have haccepts : (begin formatted volume).image.Accepts "/a" 10
        ((begin formatted volume).image.freeMap 2048).free.length := by
      refine Image.accepts_of_empty htable (by rfl) (by rfl) ?_
      rw [hmap, FreeMap.free_filled (by decide), List.length_range']
      decide
    obtain ⟨path, hparse, hadmits⟩ := Image.accepts_iff.mp haccepts
    exact absurd hadmits (hnot path hparse)

/-- A file stays open with a free root node if its removal is cut short between the sector of the
map that has the bit of the node and the end. -/
theorem Holding.exposed (h : session.Holding sectors held) (hplain : Plain sectors session)
    {text : String} {index : Fin maxOpenFiles} {handle : Handle}
    (hslot : session.volume.table[index] = some handle)
    (hto : session.LeadsTo text ⟨handle.sector, false⟩)
    (hreached : 10 + handle.sector / 8 / sectorSize < limit)
    (hlimit : limit < 10 + pieces (FreeMap.byteCount sectors) sectorSize) :
    (session.interrupt (.remove text) limit).volume.table[index] = some handle ∧
      ((session.interrupt (.remove text) limit).image.freeMap sectors).isUsed handle.sector =
        false := by
  have hcall : Call.remove text = .remove text ∨ Call.remove text = .removeTree text := .inl rfl
  have hvalid := hplain.reached.valid
  have hself := Image.mem_extent_self session.image handle.sector
  obtain ⟨-, path, directory, hparse, -, hloses⟩ := hvalid.remove_done hplain.legible hto
    fun hfalse ↦ absurd hfalse Bool.false_ne_true
  obtain ⟨-, -, -, hresolve⟩ := hto
  have hfreed := hloses.clear handle.sector ⟨text, path, _, hparse, List.prefix_refl _,
    hvalid.resolve_eq_ok.mp hresolve, hself⟩
  constructor
  · rw [h.volume_of_interrupt hcall hlimit, hslot]
  · apply Bool.eq_false_of_not_eq_true
    rw [h.isUsed_interrupt hcall limit hslot hself]
    intro hearly
    exact absurd hreached (Nat.not_lt_of_le (hearly hfreed))

/-- A file is opened, and the disk fails when its removal has written the first sector of the map.
The file stays open, and its root node is free. -/
theorem slots_exposed : ∃ volume formatted, Volume.format (.blank 2048) = .ok volume formatted ∧
    let session := ((begin formatted volume).step (.create "/a" 10)).step (.openFile "/a")
    let cut := session.interrupt (.remove "/a") 11
    ∃ (index : Fin maxOpenFiles) (handle : Handle), session.volume.table[index] = some handle ∧
      (session.image.freeMap 2048).isUsed handle.sector = true ∧
      cut.volume.table[index] = some handle ∧
      (cut.image.freeMap 2048).isUsed handle.sector = false := by
  obtain ⟨volume, formatted, hformat, hplain, sector, hbit, hlocate⟩ := exists_created_large
  obtain ⟨index, handle, -, himage, hslot, rfl⟩ := openFile_created hformat hlocate
  have hstrained := @Strained.call 2048 _ _ (.openFile "/a") (@Strained.call 2048 _ _
    (.create "/a" 10) (.blank hformat) trivial) trivial
  have hopened := @Plain.call 2048 _ (.openFile "/a") hplain trivial
    fun _ _ _ hcreates ↦ nomatch hcreates
  have hto : (((begin formatted volume).step (.create "/a" 10)).step (.openFile "/a")).LeadsTo "/a"
      ⟨handle.sector, false⟩ := by
    refine ⟨⟨["a"]⟩, by rfl, Nat.le_refl 1, ?_⟩
    rw [hopened.reached.valid.resolve_eq_ok, himage]
    exact hlocate
  obtain ⟨hmarked, -⟩ := Strained.slots_marked hstrained
  have hreached : 10 + handle.sector / 8 / sectorSize < 11 := by
    simp only [sectorSize]
    omega
  obtain ⟨hopen, hfree⟩ := hstrained.holding.exposed hopened hslot hto hreached (by decide)
  exact ⟨volume, formatted, hformat, index, handle, hslot, (hmarked index handle hslot).1, hopen,
    hfree⟩

end Session

end SectorFS
