import SectorFS.Proofs.Index.Charge
import SectorFS.Proofs.Reports
import SectorFS.Proofs.Sessions.Statuses
import Mathlib.Logic.Relation

/-!
# Every call returns

On a session that was reached from a successful format no call traps: no sum, product or
difference leaves the machine words, no slot lies outside its node, no sector outside the map,
and every descent ends. The arguments of the call are arbitrary, with one exception. A handle
that a program passes back has to be on a file that was opened in the session and has not been
removed since; the file may be a directory, and bytes may be written to it.

The recursions end because what they descend is finite and has no circles: directories lead to
ever longer places, of which there are fewer than sectors, and a slot in use leads to a node one
level further down.
-/

namespace SectorFS

open SectorFS.Geometry

variable {sectors : Nat} {session : Session} {call : Call}

/-! ## No circles -/

namespace Image

variable {image : Image}

/-- A directory has an entry in use that leads to the sector. -/
def Contains (image : Image) (directory sector : Nat) : Prop :=
  ∃ place index target, image.targetAt place = some ⟨directory, true⟩ ∧
    image.targetAt (index :: place) = some target ∧ target.sector = sector

/-- What directories lead to has a place below every place of theirs. -/
theorem Sound.exists_below (h : image.Sound sectors) {directory sector : Nat}
    (hcontains : Relation.TransGen image.Contains directory sector) :
    ∃ place index below target met, image.targetAt place = some met ∧ met.sector = directory ∧
      image.targetAt (index :: below ++ place) = some target ∧ target.sector = sector := by
  induction hcontains with
  | single hstep =>
    obtain ⟨place, index, target, hplace, hindex, hsector⟩ := hstep
    exact ⟨place, index, [], target, _, hplace, rfl, hindex, hsector⟩
  | tail _ hstep ih =>
    obtain ⟨place, index, below, target, met, hplace, hmet, hbelow, hsector⟩ := ih
    obtain ⟨upper, other, lower, hupper, hother, hlower⟩ := hstep
    obtain rfl := h.place_eq hupper hbelow hsector.symm
    exact ⟨place, other, index :: below, lower, met, hplace, hmet, hother, hlower⟩

/-- No directory can be reached from itself, no node from a node that is not above it, and no
sector of a tree from two of its slots. -/
structure Acyclic (image : Image) (sectors : Nat) : Prop where
  nested : ∀ place target, image.targetAt place = some target → place.length < sectors
  directories : ∀ sector, ¬ Relation.TransGen image.Contains sector sector
  descending : ∀ owner head, image.headOf owner = some head → ∃ root, image.node? head = some root ∧
    root.level ≤ maxLevel ∧ ∀ parent, Node.Reaches image root parent →
      slotsUsed parent.length.toNat parent.level ≤ slotCount ∧
      (1 < parent.level → ∀ index < slotsUsed parent.length.toNat parent.level, ∃ child,
        image.node? (parent.slot index) = some child ∧ child.level + 1 = parent.level)
  nodup : ∀ owner head, image.headOf owner = some head → (image.extent head).Nodup

theorem Sound.acyclic (h : image.Sound sectors) : image.Acyclic sectors := by
  constructor
  case nested =>
    intro place target hplace
    exact h.length_place_lt hplace
  case directories =>
    intro sector hcircle
    obtain ⟨place, index, below, target, met, hplace, hmet, hbelow, hsector⟩ :=
      h.exists_below hcircle
    have hlength := congrArg List.length (h.place_eq hbelow hplace (hsector.trans hmet.symm))
    rw [List.length_append, List.length_cons] at hlength
    omega
  case descending =>
    intro owner head howner
    obtain ⟨root, hintact⟩ := h.intact owner head howner
    have hwhole : root.Whole image := hintact.formed
    refine ⟨root, hintact.node_eq, root.height.isLt, fun parent hparent ↦
      ⟨slotsUsed_le (hparent.le_capacity hwhole hintact.le_capacity), fun hlevel index hindex ↦ ?_⟩⟩
    obtain ⟨child, hchild, -, hbelow, -⟩ := (hparent.whole hwhole).exists_child hlevel hindex
    exact ⟨child, hchild, hbelow⟩
  case nodup =>
    intro owner head howner
    obtain ⟨root, hintact⟩ := h.intact owner head howner
    exact hintact.nodup

end Image

/-! ## Transfers -/

/-- No chunk of a transfer goes past the end of the file. -/
theorem Chunk.end_le_of_mem_cut {start length : Nat} {chunk : Chunk}
    (h : chunk ∈ Chunk.cut start length) : chunk.start + chunk.size ≤ start + length := by
  induction length using Nat.strong_induction_on generalizing start with
  | _ length ih =>
    cases Nat.eq_zero_or_pos length with
    | inl hzero =>
      rw [hzero, Chunk.cut_zero] at h
      contradiction
    | inr hpos =>
      have hrest : start % sectorSize < sectorSize := Nat.mod_lt _ (by decide)
      rw [Chunk.cut_of_pos _ hpos, List.mem_cons] at h
      rcases h with rfl | h
      · show start + min (sectorSize - start % sectorSize) length ≤ start + length
        omega
      · have hlater := ih _ (by omega) h
        omega

namespace Handle

variable {handle : Handle}

/-- The bytes of a transfer are all within the file, or there are none. -/
theorem end_le_length {requested position : Nat} {chunk : Chunk}
    (h : chunk ∈ Chunk.cut position (handle.clamp requested position)) :
    chunk.start + chunk.size ≤ handle.length := by
  have hend := Chunk.end_le_of_mem_cut h
  by_cases hpast : handle.clamp requested position = 0
  · rw [hpast, Chunk.cut_zero] at h
    contradiction
  · rw [clamp] at hend hpast
    omega

variable {image : Image}

/-- A sequential read on an intact file returns, wherever the handle was moved to. -/
theorem read_returns (h : image.Intact sectors handle.sector handle.node)
    (hword : sectors ≤ 2 ^ 32) {position : Nat} (hposition : position < Checked.wordLimit)
    (count : Nat) :
    ∃ bytes, Performs ((handle.seek position).read count) image sectors
      (.ok (bytes, handle.seek (position + bytes.size))) [] := by
  have hread := @Node.Laid.read_performs image sectors (handle.seek position) h.laid
    (h.leaf_word hword) hposition count
  have hsize := Handle.size_extract_clamp handle image count position
  refine ⟨(handle.node.content image).extract position
    (position + handle.clamp count position), ?_⟩
  rw [hsize]
  exact hread

/-- And so does a sequential write. -/
theorem write_returns (h : image.Intact sectors handle.sector handle.node)
    (hword : sectors ≤ 2 ^ 32) {position : Nat} (hposition : position < Checked.wordLimit)
    (data : ByteArray) :
    ∃ count writes, Performs ((handle.seek position).write data) image sectors
      (.ok (count, handle.seek (position + count))) writes := by
  obtain ⟨writes, hwrite, -⟩ := @Node.Laid.write_performs image sectors (handle.seek position)
    h.laid (h.leaf_word hword) hposition data
  exact ⟨_, writes, hwrite⟩

end Handle

/-! ## Handles that programs keep -/

/-- The handle that is passed with a call, if one is. -/
def Call.handle? : Call → Option Handle
  | .readAt handle _ _ => some handle
  | .writeAt handle _ _ => some handle
  | _ => none

namespace Session

/-- The file was opened in the session, and after every call since then some place has led to it. -/
inductive Held (sectors : Nat) : Session → Nat × Node → Prop
  | opened {session : Session} {call : Call} {answer : Answer} {volume : Volume} {final : Drive}
      {handle : Handle} (hsession : Reached sectors session) (hpermits : session.Permits call)
      (hanswer : call.perform session.volume session.drive = .ok (answer, volume) final)
      (hopened : answer.opened volume = some handle) :
      Held sectors (session.step call) (handle.sector, handle.node)
  | kept {session : Session} {call : Call} {file : Nat × Node} (hheld : Held sectors session file)
      (hpermits : session.Permits call)
      (hplace : ∃ place target, (session.step call).image.targetAt place = some target ∧
        target.sector = file.1) : Held sectors (session.step call) file

/-- What a call opens, some place leads to. -/
theorem Valid.serves_of_opened (h : session.Valid sectors) (hpermits : session.Permits call)
    {answer : Answer} {volume : Volume} {final : Drive} {handle : Handle}
    (hanswer : call.perform session.volume session.drive = .ok (answer, volume) final)
    (hopened : answer.opened volume = some handle) : (session.step call).image.Serves handle := by
  obtain ⟨outcome, writes, hrun, heffect⟩ | hlooks := h.performed_of_permits hpermits
  · have himage := h.image_of_performs hrun
    obtain ⟨reached, hreached, -⟩ := hrun.run h.holds h.faults_eq
    rw [hanswer] at hreached
    cases outcome with
    | error stop => contradiction
    | ok result =>
      obtain ⟨rfl, -⟩ := EStateM.Result.ok.inj hreached
      obtain ⟨hserves, rfl⟩ := heffect.of_opened hopened
      rw [himage]
      exact hserves
  · obtain ⟨outcome, reached, hreached, -, hsilent⟩ := hlooks.perform_eq
    rw [hanswer] at hreached
    cases outcome with
    | error stop => contradiction
    | ok result =>
      obtain ⟨rfl, -⟩ := EStateM.Result.ok.inj hreached
      obtain ⟨-, hnone⟩ := hsilent answer volume rfl
      rw [hnone] at hopened
      contradiction

/-- A file that is held has the node it was opened with, at a place of the session. -/
theorem Held.leads {file : Nat × Node} (h : Held sectors session file) :
    session.Valid sectors ∧ (∃ place target, session.image.targetAt place = some target ∧
      target.sector = file.1) ∧ session.image.node? file.1 = some file.2 := by
  induction h with
  | opened hsession hpermits hanswer hopened =>
    have hserves := hsession.valid.serves_of_opened hpermits hanswer hopened
    exact ⟨(hsession.valid.step hpermits).1, hserves.reached, hserves.node_eq⟩
  | @kept session call file hheld hpermits hplace ih =>
    obtain ⟨hvalid, ⟨place, target, htarget, hsector⟩, hnode⟩ := ih
    obtain ⟨hstep, hchange⟩ := hvalid.step hpermits
    refine ⟨hstep, hplace, ?_⟩
    rw [← hsector] at hnode ⊢
    exact (hchange.node?_eq hvalid.sound htarget).trans hnode

theorem Held.intact {handle : Handle} (h : Held sectors session (handle.sector, handle.node)) :
    session.image.Intact sectors handle.sector handle.node := by
  obtain ⟨hvalid, ⟨place, target, hplace, hsector⟩, hnode⟩ := h.leads
  obtain ⟨node, hintact⟩ := hvalid.whole.intact_item hplace
  rw [hsector] at hintact
  obtain rfl := Option.some.inj (hnode.symm.trans hintact.node_eq)
  exact hintact

/-- What is live after a call is still there. -/
theorem hasFile_of_live_step {file : Nat × Node} (h : file ∈ (session.step call).live) :
    (session.step call).image.HasFile file.1 := by
  rw [step_eq_resume] at h
  rw [image, step_eq_resume]
  cases hresult : call.perform session.volume session.drive with
  | error stop final =>
    rw [hresult] at h
    exact h.2
  | ok result final =>
    rw [hresult] at h
    exact h.2

/-- A live file is held: it was opened, and it has been there since. -/
theorem Reached.held_of_live (h : Reached sectors session) {file : Nat × Node}
    (hlive : file ∈ session.live) : Held sectors session file := by
  induction h with
  | format => exact hlive.elim
  | @call session call hsession hpermits ih =>
    obtain ⟨place, hplace⟩ := hasFile_of_live_step hlive
    have hstays (hheld : Held sectors session file) : Held sectors (session.step call) file :=
      hheld.kept hpermits ⟨place, _, hplace, rfl⟩
    rw [step_eq_resume] at hlive
    cases hresult : call.perform session.volume session.drive with
    | error stop final =>
      rw [hresult] at hlive
      exact hstays (ih hlive.1)
    | ok result final =>
      rw [hresult] at hlive
      obtain hold | ⟨handle, hopened, rfl⟩ := hlive.1
      · exact hstays (ih hold)
      · exact .opened hsession hpermits hresult hopened

/-! ## Every call -/

/-- The call ends with an answer, or with a refusal of the volume. -/
def Returns (session : Session) (call : Call) : Prop :=
  (∃ answer, session.answer call = .ok answer) ∨
    ∃ cause : Error, cause.IsRefusal ∧ session.answer call = .error (.error cause)

namespace Valid

theorem returns_of_ok (h : session.Valid sectors) {result : Answer × Volume}
    {writes : List Write}
    (hrun : Performs (call.perform session.volume) session.image sectors (.ok result) writes) :
    session.Returns call := .inl ⟨result.1, h.answer_of_performs hrun⟩

theorem returns_of_performed (h : session.Valid sectors) (hcall : session.Performed sectors call) :
    session.Returns call := by
  obtain ⟨outcome, writes, hrun, heffect⟩ := hcall
  cases outcome with
  | ok result => exact h.returns_of_ok hrun
  | error stop =>
    obtain ⟨⟨cause, rfl, hcause⟩, -⟩ := heffect.of_error
    exact .inr ⟨cause, hcause, h.answer_of_performs hrun⟩

/-- No call traps if the handle that is passed with it is on an intact file. -/
theorem call_returns (h : session.Valid sectors)
    (hhandle : ∀ handle, call.handle? = some handle →
      session.image.Intact sectors handle.sector handle.node) : session.Returns call := by
  have hword := Nat.le_of_lt h.whole.sectors_lt
  cases call with
  | readAt handle position count =>
    exact h.returns_of_ok ((Handle.readAt_performs (hhandle handle rfl) hword position count).map
      fun bytes ↦ (Answer.bytes bytes, session.volume))
  | writeAt handle position data =>
    obtain ⟨writes, hrun, -⟩ := h.writeAt_performs (hhandle handle rfl) position data
    exact h.returns_of_ok hrun
  | freeSectors =>
    exact h.returns_of_ok ((h.attached.freeSectors_performs h.whole).map
      fun count ↦ (Answer.count count, session.volume))
  | report =>
    exact h.returns_of_ok ((Volume.report_performs h.attached h.whole).map
      fun text ↦ (Answer.text text, session.volume))
  | sync => exact h.returns_of_ok (Performs.sync.step (Performs.pure (Answer.done, session.volume)))
  | remount => exact h.returns_of_performed h.performed_remount
  | create | createDirectory | remove | removeTree | list | openHandle | openFile | read | write
  | close => exact h.returns_of_performed (h.performed trivial)

/-- The entry points that answer with a status always answer. -/
theorem status_returns (h : session.Valid sectors) (call : Volume.Status.Call) :
    ∃ status after final, call.perform session.volume session.drive =
      .ok (status, after) final := by
  obtain ⟨outcome, writes, hrun, hno⟩ := call.asked_performs h
  obtain ⟨final, hfinal, -⟩ := hrun.run h.holds h.faults_eq
  have hfollows := call.follows session.volume session.drive
  rw [hfinal] at hfollows
  cases outcome with
  | ok result => exact ⟨_, _, _, hfollows⟩
  | error stop =>
    cases stop with
    | error cause =>
      obtain ⟨other, hstatus, -⟩ := hfollows
      exact ⟨_, _, other, hstatus⟩
    | trap cause => exact absurd rfl (hno cause)

end Valid

/-! ## Sessions -/

/-- A disk that was formatted once has room for the two root files. -/
theorem Reached.formattable (h : Reached sectors session) :
    ∃ height, Formattable sectors height := by
  induction h with
  | format hcount hsize hfaults hformat =>
    exact formattable_of_format hcount hsize hfaults hformat
  | call hsession hpermits ih => exact ih

/-- In every session each call returns, whatever it is given, if the handle that is passed with it
is on a file that was opened in the session and is still there. So do the entry points for programs
that know numbers only, sequential transfers through such a handle from any position, and formatting
the disk anew. No transfer goes past the end of its file, and there are no circles to descend. -/
theorem Reached.returns (h : Reached sectors session) :
    (∀ call : Call, (∀ handle, call.handle? = some handle →
        Held sectors session (handle.sector, handle.node)) → session.Returns call) ∧
    (∀ call : Volume.Status.Call, ∃ status after final,
      call.perform session.volume session.drive = .ok (status, after) final) ∧
    (∀ handle : Handle, Held sectors session (handle.sector, handle.node) →
      ∀ position < Checked.wordLimit,
        (∀ count, ∃ bytes final, (handle.seek position).read count session.drive =
          .ok (bytes, handle.seek (position + bytes.size)) final) ∧
        ∀ data, ∃ count final, (handle.seek position).write data session.drive =
          .ok (count, handle.seek (position + count)) final) ∧
    (∀ (handle : Handle) (requested position : Nat),
      ∀ chunk ∈ Chunk.cut position (handle.clamp requested position),
        chunk.start + chunk.size ≤ handle.length ∧ handle.length < 2 ^ 32) ∧
    (∃ volume final, Volume.format session.drive = .ok volume final) ∧
    session.image.Acyclic sectors := by
  have hvalid := h.valid
  have hword := Nat.le_of_lt hvalid.whole.sectors_lt
  refine ⟨fun call hheld ↦ hvalid.call_returns fun handle hhandle ↦ (hheld handle hhandle).intact,
    hvalid.status_returns, fun handle hheld position hposition ↦ ⟨fun count ↦ ?_, fun data ↦ ?_⟩,
    fun handle requested position chunk hchunk ↦
      ⟨Handle.end_le_length hchunk, UInt32.toNat_lt _⟩, ?_, hvalid.whole.acyclic⟩
  · obtain ⟨bytes, hrun⟩ := Handle.read_returns hheld.intact hword hposition count
    obtain ⟨final, hfinal, -⟩ := hrun.run hvalid.holds hvalid.faults_eq
    exact ⟨bytes, final, hfinal⟩
  · obtain ⟨count, writes, hrun⟩ := Handle.write_returns hheld.intact hword hposition data
    obtain ⟨final, hfinal, -⟩ := hrun.run hvalid.holds hvalid.faults_eq
    exact ⟨count, final, hfinal⟩
  · obtain ⟨height, hroom⟩ := h.formattable
    obtain ⟨mapNode, rootNode, inner, hformat⟩ := Volume.format_performs hroom
    obtain ⟨writes, hrun, -⟩ := hformat session.image
    obtain ⟨final, hfinal, -⟩ := hrun.run hvalid.holds hvalid.faults_eq
    exact ⟨_, final, hfinal⟩

/-- A program opens the root directory of a new volume, writes over its end, and asks for a file
that is larger than any. -/
theorem returns_writing_root : ∃ volume formatted,
    Volume.format (.blank 64) = .ok volume formatted ∧ ∃ handle,
      let session := (begin formatted volume).step (.openHandle "/")
      (begin formatted volume).answer (.openHandle "/") = .ok (.handle handle) ∧
        session.Returns (.writeAt handle 1270 ⟨.replicate 20 1⟩) ∧
        session.Returns (.create "/a" 18446744073709551615) ∧
        session.image.Acyclic 64 := by
  obtain ⟨volume, formatted, hformat, hreached, -⟩ := exists_reached_small
  have hvalid := hreached.valid
  obtain ⟨cause, hlocate, -⟩ | ⟨handle, target, -, -, -, hopen⟩ :=
    Volume.openHandle_performs hvalid.attached hvalid.whole "/"
  · have hroot : (begin formatted volume).image.locate "/" = .ok ⟨rootSector, true⟩ := rfl
    rw [hroot] at hlocate
    contradiction
  · have hrun : Performs ((Call.openHandle "/").perform volume) (begin formatted volume).image 64
        (.ok (.handle handle, volume)) [] := hopen.map fun handle ↦ (Answer.handle handle, volume)
    obtain ⟨final, hfinal, -⟩ := hrun.run hvalid.holds hvalid.faults_eq
    have hheld : Held 64 ((begin formatted volume).step (.openHandle "/"))
        (handle.sector, handle.node) := .opened hreached trivial hfinal rfl
    obtain ⟨hcalls, -, -, -, -, hacyclic⟩ :=
      Reached.returns (@Reached.call 64 _ (.openHandle "/") hreached trivial)
    refine ⟨volume, formatted, hformat, handle,
      @Mounted.answer_of_performs 64 _ (.openHandle "/") hvalid.toMounted _ _ hrun,
      hcalls _ fun other hother ↦ ?_, hcalls _ fun other hother ↦ ?_, hacyclic⟩
    · obtain rfl := Option.some.inj hother
      exact hheld
    · contradiction

end Session

end SectorFS
