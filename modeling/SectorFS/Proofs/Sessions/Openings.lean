import SectorFS.Proofs.Sessions.Removals

/-!
# The paths of open files

The table of open files keeps sectors and nodes and no paths. Which files a removal closes is
decided by the map: those whose root nodes are free in it. To say that these are exactly the
files that were opened on the removed path or below it, a session is followed together with
the texts that its files were opened by. In every state a file of the table is what its text
leads to, since a removal that takes the path away closes the file, and no other call takes
a path away. So an identifier never leads to the sectors of another file.
-/

namespace SectorFS.Session

variable {sectors : Nat} {session : Session} {call : Call}
  {texts : Fin maxOpenFiles → Option String}

/-! ## Texts -/

/-- The text that the file at a place of the table was opened by, after a call. -/
def record (session : Session) (call : Call) (texts : Fin maxOpenFiles → Option String)
    (index : Fin maxOpenFiles) : Option String :=
  match call, session.answer call with
  | .openFile text, .ok (.identifier id) => if index + 1 = id then some text else texts index
  | _, _ => texts index

/-- A place of the table keeps its text in a call that does not open a file into it. -/
theorem record_of_kept {index : Fin maxOpenFiles}
    (h : ∀ text, call = .openFile text → session.answer call ≠ .ok (.identifier (index + 1))) :
    session.record call texts index = texts index := by
  unfold record
  split
  · rename_i text id hanswer
    refine if_neg fun hid ↦ h text rfl ?_
    rw [hanswer, hid]
  · rfl

theorem record_of_opened {text : String} {index : Fin maxOpenFiles}
    (h : session.answer (.openFile text) = .ok (.identifier (index + 1))) :
    session.record (.openFile text) texts index = some text := by
  unfold record
  rw [h]
  exact if_pos rfl

/-- Every file of the table is what the text leads to that it was opened by. -/
def Traces (session : Session) (texts : Fin maxOpenFiles → Option String) : Prop :=
  ∀ (index : Fin maxOpenFiles) (handle : Handle), session.volume.table[index] = some handle →
    ∃ text target, texts index = some text ∧ session.image.locate text = .ok target ∧
      target.sector = handle.sector

/-! ## One call -/

/-- While the table has a free slot, what a path leads to can be opened. -/
theorem Mounted.openFile_done (h : session.Mounted sectors) {text : String} {target : Target}
    (hlocate : session.image.locate text = .ok target) {vacant : Fin maxOpenFiles}
    (hvacant : session.volume.table[vacant] = none) :
    ∃ (index : Fin maxOpenFiles) (handle : Handle),
      session.answer (.openFile text) = .ok (.identifier (index + 1)) ∧
      (session.step (.openFile text)).image = session.image ∧
      (session.step (.openFile text)).volume.table[index] = some handle ∧
      handle.sector = target.sector := by
  obtain ⟨cause, -, hstop, -⟩ | ⟨handle, found, index, hfound, hstart, -, -, -, hrun⟩ :=
    h.openFile_performs text
  · rcases hstop with hnowhere | ⟨-, -, hfull⟩
    · rw [hlocate] at hnowhere
      contradiction
    · have hoccupied := hfull vacant
      rw [hvacant] at hoccupied
      contradiction
  · obtain rfl := Except.ok.inj (hfound.symm.trans hlocate)
    refine ⟨index, handle, h.answer_of_performs hrun, ?_, ?_, hstart.sector_eq.symm⟩
    · rw [h.image_of_performs hrun, Image.putAll_nil]
    · rw [h.volume_of_performs hrun, Volume.table_setSlot, if_pos rfl]

namespace Valid

/-- A text goes on to lead to a file that the table still has after the call. -/
theorem locate_kept (h : session.Valid sectors) (hlegible : session.image.Legible)
    (hpermits : session.Permits call) (hplain : call.Plain) {answer : Answer} {volume : Volume}
    {writes : List Write}
    (hrun : Performs (call.perform session.volume) session.image sectors (.ok (answer, volume))
      writes)
    (heffect : session.Effect sectors call (.ok (answer, volume)) writes)
    {index : Fin maxOpenFiles} {handle : Handle} {text : String} {target : Target}
    (hslot : volume.table[index] = some handle) (hsector : target.sector = handle.sector)
    (hlocate : session.image.locate text = .ok target) :
    (session.step call).image.locate text = .ok target := by
  have himage := h.image_of_performs hrun
  have hwritten {place : Place} {sector position : Nat} {data : ByteArray}
      (hplace : session.image.targetAt place = some ⟨sector, false⟩)
      (hsplices : session.image.Overwrites sector position data writes) :
      (session.step call).image.locate text = .ok target := by
    rw [himage, Image.locate_congr fun _ _ ↦ Image.table_unwritten hsplices h.whole hplace,
      hlocate]
  cases heffect with
  | @created _ other size _ _ isDirectory _ _ _ _ _ _ _ _ _ hcall hparse hadmits hcreated =>
    exact h.locate_creates hcall (hplain other size isDirectory hcall) hlocate
  | removed hcall hparse hnames hremoved =>
    rw [Volume.table_keepLive, Option.filter_eq_some_iff, ← hsector] at hslot
    obtain ⟨whole, -, hwhole, -, -⟩ := Image.locate_eq_ok.mp hlocate
    have habove := (hnames.isUsed_clearAll_iff h.whole hparse hwhole hlocate).mp hslot.2
    rw [himage, hremoved.locate_final h.whole hnames hlegible hparse hwhole, if_neg habove, hlocate]
  | written hfound hsplices =>
    obtain ⟨⟨place, hplace⟩, -⟩ := h.intact_of_live (hpermits _ _ hfound)
    exact hwritten hplace hsplices
  | writtenAt _ hsplices =>
    obtain ⟨⟨place, hplace⟩, -⟩ := h.intact_of_live hpermits
    exact hwritten hplace hsplices
  | listed | handed | opened | read | closed | remounted => rw [himage, Image.putAll_nil, hlocate]

theorem traces_step (h : session.Valid sectors) (hlegible : session.image.Legible)
    (hpermits : session.Permits call) (hplain : call.Plain) (htraces : session.Traces texts) :
    (session.step call).Traces (session.record call texts) := by
  intro index handle hslot
  obtain ⟨outcome, writes, hrun, heffect⟩ | hlooks := h.performed_of_permits hpermits
  · have hanswer := h.answer_of_performs hrun
    cases outcome with
    | error stop =>
      obtain ⟨-, rfl⟩ := heffect.of_error
      rw [h.volume_of_stopped hrun] at hslot
      rw [h.image_of_performs hrun, Image.putAll_nil, record_of_kept]
      · exact htraces index handle hslot
      · rintro text - hopened
        rw [hanswer] at hopened
        contradiction
    | ok result =>
      obtain ⟨answer, volume⟩ := result
      rw [h.volume_of_performs hrun] at hslot
      obtain ⟨text, target, rfl, rfl, -, hlocate, hsector, -, rfl⟩ |
        ⟨hanother, old, position, hold, -, rfl⟩ := heffect.slot_cases h.toMounted hslot
      · rw [h.image_of_performs hrun, Image.putAll_nil]
        exact ⟨text, target, record_of_opened hanswer, hlocate, hsector⟩
      · obtain ⟨text, target, htext, hlocate, hsector⟩ := htraces index old hold
        refine ⟨text, target, ?_, h.locate_kept hlegible hpermits hplain hrun heffect hslot hsector
          hlocate, hsector⟩
        rw [record_of_kept, htext]
        intro other hcall hopened
        rw [hanswer] at hopened
        exact hanother (Except.ok.inj hopened)
  · have hcall (text : String) (hopens : call = .openFile text) : False :=
      hlooks.1 (hopens ▸ trivial)
    obtain ⟨final, live, hstep, halike, -⟩ := hlooks.step_eq
    have himage : Session.image ⟨final, session.volume, live⟩ = session.image := halike.sector_eq
    rw [hstep] at hslot
    rw [hstep, himage, record_of_kept]
    · exact htraces index handle hslot
    · exact fun text hopens ↦ (hcall text hopens).elim

/-- A removal that is done closes the files that were opened on its path or below it, and no other
slot changes. -/
theorem table_of_removal (h : session.Valid sectors) (htraces : session.Traces texts)
    {text : String} (hcall : call = .remove text ∨ call = .removeTree text)
    (hdone : session.answer call = .ok .done) :
    ∃ path, Path.parse text = .ok path ∧ ∀ index : Fin maxOpenFiles,
      (session.volume.table[index] = none → (session.step call).volume.table[index] = none) ∧
      ∀ handle opened whole, session.volume.table[index] = some handle → texts index = some opened →
        Path.parse opened = .ok whole → (session.step call).volume.table[index] =
          if path.components <+: whole.components then none else some handle := by
  obtain ⟨outcome, writes, hrun, heffect⟩ := h.performed_of_removal hcall
  obtain ⟨cause, rfl, -⟩ | ⟨path, parent, directory, name, place, target, table, map, hparse,
    hnames, -, rfl, -⟩ := heffect.of_removal hcall
  · rw [h.answer_of_performs hrun] at hdone
    contradiction
  · rw [h.volume_of_performs hrun]
    refine ⟨path, hparse, fun index ↦
      ⟨fun hnone ↦ ?_, fun handle opened whole hslot htext hwhole ↦ ?_⟩⟩
    · rw [Volume.table_keepLive, hnone, Option.filter_none]
    · obtain ⟨again, found, hagain, hlocate, hsector⟩ := htraces index handle hslot
      obtain rfl := Option.some.inj (htext.symm.trans hagain)
      have hkept := hnames.isUsed_clearAll_iff h.whole hparse hwhole hlocate
      rw [hsector] at hkept
      rw [Volume.table_keepLive, hslot]
      split
      · rename_i hprefix
        exact Option.filter_eq_none_iff.mpr fun found hfound ↦
          Option.some.inj hfound ▸ fun hused ↦ hkept.mp hused hprefix
      · rename_i hprefix
        exact Option.filter_eq_some_iff.mpr ⟨rfl, hkept.mpr hprefix⟩

/-- A creation that is done keeps the table, and none of its files has a sector of the new one. -/
theorem table_of_creation (h : session.Valid sectors) {text : String} {size : Nat}
    {isDirectory : Bool} (hcall : call.Creates text size isDirectory)
    (hdone : session.answer call = .ok .done) (hzero : '\x00' ∉ text.toList)
    {index : Fin maxOpenFiles} {handle : Handle}
    (hslot : session.volume.table[index] = some handle) :
    (session.step call).volume.table[index] = some handle ∧
      ∃ target, (session.step call).resolve text = .ok target ∧
        ∀ sector ∈ (session.step call).image.extent handle.sector,
          sector ∉ (session.step call).image.extent target.sector := by
  obtain ⟨path, parent, directory, name, entry, height, head, node, fresh, table, map, hparse,
    hadmits, hrun, hcreated⟩ | ⟨-, cause, -, hrun⟩ := h.create_performs hcall
  · have hafter := (h.step (permits_of_creates hcall)).1
    have himage := h.image_of_performs hrun
    have hplaces := hcreated.targetAt_final h.whole hadmits
    have hlocate := (hcreated.gains h.whole hadmits hparse hzero hcall.size_eq).locate_eq
    rw [← himage] at hplaces hlocate
    refine ⟨by rw [h.volume_of_creates hcall, hslot], _, hafter.resolve_eq_ok.mpr hlocate,
      fun sector hold hnew ↦ ?_⟩
    obtain ⟨place, met, hplace, hsector⟩ := h.reached index handle hslot
    have hne : place ≠ entry :: parent := by
      rintro rfl
      rw [hadmits.targetAt_self] at hplace
      contradiction
    have hold' : (session.step call).image.Owns (.item place) sector :=
      ⟨_, Image.headOf_item (by rw [hplaces, if_neg hne, hplace]), hsector ▸ hold⟩
    have hnew' : (session.step call).image.Owns (.item (entry :: parent)) sector :=
      ⟨_, Image.headOf_item (by rw [hplaces, if_pos rfl]), hnew⟩
    exact hne (Owner.item.inj (hafter.whole.owner_eq _ _ _ hold' hnew'))
  · rw [h.answer_of_performs hrun] at hdone
    contradiction

end Valid

/-! ## Runs -/

/-- The sessions that start with a successful format and go on with permitted calls that create
nothing at a path with a zero character, with the texts that the open files were opened by. -/
inductive Traced (sectors : Nat) : Session → (Fin maxOpenFiles → Option String) → Prop
  | format {drive formatted : Drive} {volume : Volume}
      (hcount : drive.disk.sectorCount = sectors)
      (hsize : sectors * sectorSize ≤ drive.disk.medium.size)
      (hfaults : drive.disk.faults = .none)
      (hformat : Volume.format drive = .ok volume formatted) :
      Traced sectors (begin formatted volume) fun _ ↦ none
  | call {session : Session} {texts : Fin maxOpenFiles → Option String} {call : Call}
      (hsession : Traced sectors session texts) (hpermits : session.Permits call)
      (hplain : call.Plain) : Traced sectors (session.step call) (session.record call texts)

theorem Traced.plain (h : Traced sectors session texts) : Plain sectors session := by
  induction h with
  | format hcount hsize hfaults hformat => exact .format hcount hsize hfaults hformat
  | call hsession hpermits hplain ih => exact ih.call hpermits hplain

/-- The texts can be followed through every run. -/
theorem Plain.traced (h : Plain sectors session) : ∃ texts, Traced sectors session texts := by
  induction h with
  | format hcount hsize hfaults hformat => exact ⟨_, .format hcount hsize hfaults hformat⟩
  | call hsession hpermits hplain ih =>
    obtain ⟨texts, htexts⟩ := ih
    exact ⟨_, htexts.call hpermits hplain⟩

theorem Traced.traces (h : Traced sectors session texts) : session.Traces texts := by
  induction h with
  | format hcount hsize hfaults hformat =>
    intro index handle hslot
    rw [begin, (begin_valid hcount hsize hfaults hformat).2.2 index] at hslot
    contradiction
  | call hsession hpermits hplain ih =>
    exact hsession.plain.reached.valid.traces_step hsession.plain.legible hpermits hplain ih

/-- Every file of the table is what the text leads to that it was opened by, with the root node that
is on the disk. A removal closes the files that were opened on its path or below it and leaves the
other slots as they are, and a creation gives no sector of an open file to the new one. -/
theorem Traced.openings (h : Traced sectors session texts) :
    (∀ (index : Fin maxOpenFiles) (handle : Handle), session.volume.table[index] = some handle →
      ∃ text target, texts index = some text ∧ session.resolve text = .ok target ∧
        target.sector = handle.sector ∧ session.image.node? handle.sector = some handle.node) ∧
    (∀ call text, call = .remove text ∨ call = .removeTree text → session.answer call = .ok .done →
      ∃ path, Path.parse text = .ok path ∧ ∀ index : Fin maxOpenFiles,
        (session.volume.table[index] = none → (session.step call).volume.table[index] = none) ∧
        ∀ handle opened whole, session.volume.table[index] = some handle →
          texts index = some opened → Path.parse opened = .ok whole →
            (session.step call).volume.table[index] =
              if path.components <+: whole.components then none else some handle) ∧
    ∀ (call : Call) (text : String) (size : Nat) (isDirectory : Bool),
      call.Creates text size isDirectory → '\x00' ∉ text.toList → session.answer call = .ok .done →
        ∀ (index : Fin maxOpenFiles) (handle : Handle), session.volume.table[index] = some handle →
          (session.step call).volume.table[index] = some handle ∧
            ∃ target, (session.step call).resolve text = .ok target ∧
              ∀ sector ∈ (session.step call).image.extent handle.sector,
                sector ∉ (session.step call).image.extent target.sector := by
  have hvalid := h.plain.reached.valid
  refine ⟨fun index handle hslot ↦ ?_, fun call text hcall hdone ↦
    hvalid.table_of_removal h.traces hcall hdone, fun call text size isDirectory hcall hzero hdone
    index handle hslot ↦ hvalid.table_of_creation hcall hdone hzero hslot⟩
  obtain ⟨text, target, htext, hlocate, hsector⟩ := h.traces index handle hslot
  exact ⟨text, target, htext, hvalid.resolve_eq_ok.mpr hlocate, hsector,
    (hvalid.carries index handle hslot).intact.node_eq⟩

/-! ## On a new volume -/

/-- What is created on a new volume can be opened. -/
theorem openFile_created {formatted : Drive} {volume : Volume}
    (hformat : Volume.format (.blank sectors) = .ok volume formatted) {text : String} {size : Nat}
    {target : Target}
    (hlocate : ((begin formatted volume).step (.create text size)).image.locate text = .ok target) :
    let created := (begin formatted volume).step (.create text size)
    ∃ (index : Fin maxOpenFiles) (handle : Handle),
      created.answer (.openFile text) = .ok (.identifier (index + 1)) ∧
      (created.step (.openFile text)).image = created.image ∧
      (created.step (.openFile text)).volume.table[index] = some handle ∧
      handle.sector = target.sector := by
  obtain ⟨hvalid, -, hclosed⟩ := begin_valid rfl (size_zeroBytes _).ge rfl hformat
  have hvolume := hvalid.volume_of_creates (.file text size)
  have hvacant : ((begin formatted volume).step (.create text size)).volume.table[
      (⟨0, by decide⟩ : Fin maxOpenFiles)] = none := by
    rw [hvolume]
    exact hclosed _
  exact (hvalid.step (permits_of_creates (.file text size))).1.openFile_done hlocate hvacant

/-- A file is created on a new volume and opened. -/
theorem exists_opened : ∃ volume formatted, Volume.format (.blank 64) = .ok volume formatted ∧
    let session := ((begin formatted volume).step (.create "/a" 300)).step (.openFile "/a")
    ∃ (texts : Fin maxOpenFiles → Option String) (index : Fin maxOpenFiles) (handle : Handle),
      Traced 64 session texts ∧ session.LeadsTo "/a" ⟨handle.sector, false⟩ ∧
        texts index = some "/a" ∧ session.volume.table[index] = some handle := by
  obtain ⟨volume, formatted, hformat, hplain, sector, path, hparse, hdepth, hresolve⟩ :=
    exists_plain_created
  obtain ⟨texts, htraced⟩ := hplain.traced
  have hvalid := hplain.reached.valid
  have hafter := @Traced.call 64 _ texts (.openFile "/a") htraced trivial
    fun _ _ _ hcreates ↦ nomatch hcreates
  rw [hvalid.resolve_eq_ok] at hresolve
  obtain ⟨index, handle, hanswer, himage, hslot, rfl⟩ := openFile_created hformat hresolve
  refine ⟨volume, formatted, hformat, _, index, handle, hafter, ⟨path, hparse, hdepth, ?_⟩,
    record_of_opened hanswer, hslot⟩
  rw [hafter.plain.reached.valid.resolve_eq_ok, himage, hresolve]

/-- Removing the open file closes it. -/
theorem openings_first : ∃ volume formatted, Volume.format (.blank 64) = .ok volume formatted ∧
    let session := ((begin formatted volume).step (.create "/a" 300)).step (.openFile "/a")
    ∃ (index : Fin maxOpenFiles) (handle : Handle), session.volume.table[index] = some handle ∧
      session.answer (.remove "/a") = .ok .done ∧
      (session.step (.remove "/a")).volume.table[index] = none := by
  obtain ⟨volume, formatted, hformat, texts, index, handle, htraced, hto, htext, hslot⟩ :=
    exists_opened
  obtain ⟨-, hremoval, -⟩ := Traced.openings htraced
  obtain ⟨hdone, -⟩ := htraced.plain.reached.valid.remove_done htraced.plain.legible hto
    fun hfalse ↦ absurd hfalse Bool.false_ne_true
  obtain ⟨path, hparse, hslots⟩ := hremoval _ "/a" (.inl rfl) hdone
  refine ⟨volume, formatted, hformat, index, handle, hslot, hdone, ?_⟩
  rw [(hslots index).2 handle "/a" path hslot htext hparse, if_pos (List.prefix_refl _)]

end SectorFS.Session
