import SectorFS.Proofs.Sessions.Creations
import SectorFS.Proofs.Sessions.Plain

/-!
# Names that are kept

The parser takes a zero character for any other, but an entry ends its name at the first zero
byte. So a component is found again, listed, refused a second time and removed under its own
name if and only if it has no zero character. A path that was just created can be opened under
the same condition, and while nothing is created under another kind of name, no directory keeps
the same name twice.
-/

namespace SectorFS

variable {sectors : Nat} {session : Session} {call : Call} {text : String} {path : Path}

/-! ## Tables -/

namespace Directory

variable {directory entered : Directory} {name : String} {sector : Nat} {isDirectory : Bool}

/-- What was entered can be relied on under its name. -/
structure Keeps (entered : Directory) (name : String) (sector : Nat) (isDirectory : Bool) :
    Prop where
  find_eq : entered.find? name = some sector
  listed : ∃ line ∈ entered.list,
    line.name = name ∧ line.sector = sector ∧ line.isDirectory = isDirectory
  taken : ∀ other kind, entered.add name other kind = .error .alreadyExists
  removed : ∃ left, entered.remove name = .ok left

/-- The table does not know the name. -/
structure Ignores (entered : Directory) (name : String) : Prop where
  find_eq : entered.find? name = none
  unlisted : ∀ line ∈ entered.list, line.name ≠ name
  untaken : ∀ other kind, entered.add name other kind ≠ .error .alreadyExists
  unremoved : entered.remove name = .error .notFound

/-- No entry is shown under a name with a zero character. -/
theorem zero_not_mem_shownName (entry : Entry) : '\x00' ∉ entry.shownName.toList := by
  rw [Entry.shownName, Name.shown, String.toList_ofList]
  exact Text.Utf8.zero_not_mem_decode (Name.zero_not_mem_storedKey _)

/-- No table knows a name with a zero character. -/
theorem ignores_of_zero (h : name.utf8ByteSize ≤ nameLimit) (hzero : '\x00' ∈ name.toList) :
    directory.Ignores name := by
  have hindex := @index?_of_zero directory name h hzero
  refine ⟨find?_eq_none_iff.mpr hindex, fun line hline ↦ ?_, fun other kind ↦ ?_, ?_⟩
  · obtain ⟨entry, -, rfl⟩ := List.mem_map.mp hline
    rintro rfl
    exact zero_not_mem_shownName entry hzero
  · rw [add_eq, hindex]
    cases directory.freeIndex? <;> simp
  · rw [remove_eq, hindex]

/-- A plain component that was entered is kept. -/
theorem keeps_of_plain {index : Fin entryCount} (hplain : Path.IsPlain name)
    (hsector : sector < 2 ^ 32) (habsent : directory.index? name = none) :
    (directory.update index (.ofName name sector isDirectory)).Keeps name sector isDirectory := by
  have hnamed : (Entry.ofName name sector isDirectory).isNamed name = true := by
    rw [isNamed_ofName hplain.no_zero, beq_self_eq_true]
  have hindex : (directory.update index (.ofName name sector isDirectory)).index? name =
      some index := index?_update_self habsent hnamed
  have hentry : (directory.update index (.ofName name sector isDirectory)).table[index] =
      .ofName name sector isDirectory := by rw [table_update, if_pos rfl]
  have hnumber : (Entry.ofName name sector isDirectory).sector.toNat = sector :=
    UInt32.toNat_ofNat_of_lt' hsector
  refine ⟨?_, ⟨.ofEntry 0 (.ofName name sector isDirectory), List.mem_map_of_mem
    (mem_entries.mpr ⟨index, hentry, rfl⟩), Name.shown_field hplain, hnumber, ?_⟩,
    fun other kind ↦ ?_, ?_⟩
  · rw [find?, entry?, hindex, Option.map_some, Option.map_some, hentry, hnumber]
  · show (Entry.ofName name sector isDirectory).isDirectory = isDirectory
    cases isDirectory <;> rfl
  · rw [add_eq, hindex]
  · exact ⟨_, remove_eq_ok hindex⟩

end Directory

/-! ## Paths -/

/-- A zero character of a path's text is one of its components'. -/
theorem Path.exists_zero_of_parse (h : Path.parse text = .ok path) (hzero : '\x00' ∈ text.toList) :
    ∃ name ∈ path.components, '\x00' ∈ name.toList := by
  rw [(parse_eq_ok h).2] at hzero
  split at hzero
  · simp at hzero
  · obtain ⟨name, hname, hmem⟩ := List.mem_flatMap.mp hzero
    rcases List.mem_cons.mp hmem with heq | hmem
    · contradiction
    · exact ⟨name, hname, hmem⟩

/-- Names with a zero character have no place. -/
theorem Image.no_zero_of_placeOf {image : Image} {names : List String} {place : Place}
    (h : image.placeOf names = some place)
    (hfits : ∀ name ∈ names, name.utf8ByteSize ≤ nameLimit) :
    ∀ name ∈ names, '\x00' ∉ name.toList := by
  induction place generalizing names with
  | nil =>
    rw [eq_nil_of_placeOf h]
    exact fun _ hname ↦ absurd hname List.not_mem_nil
  | cons index place ih =>
    obtain ⟨above, last, sector, rfl, habove, -, hindex⟩ := placeOf_eq_some_cons.mp h
    intro name hname
    rcases List.mem_append.mp hname with hname | hname
    · exact ih habove (fun name hname ↦ hfits name (List.mem_append_left _ hname)) name hname
    · rw [List.mem_singleton.mp hname]
      intro hzero
      rw [Directory.index?_of_zero (hfits last (List.mem_append_right _ List.mem_cons_self)) hzero]
        at hindex
      contradiction

/-- A text with a zero character leads nowhere. -/
theorem Image.no_zero_of_locate {image : Image} {target : Target}
    (h : image.locate text = .ok target) : '\x00' ∉ text.toList := by
  intro hzero
  obtain ⟨path, place, hparse, hplace, -⟩ := locate_eq_ok.mp h
  obtain ⟨name, hname, hmem⟩ := Path.exists_zero_of_parse hparse hzero
  exact no_zero_of_placeOf hplace (fun _ hname ↦ Path.fits_of_parse hparse hname) name hname hmem

namespace Session

/-- A path can be opened if and only if it leads somewhere. -/
theorem Valid.opens_iff (h : session.Valid sectors) :
    (∃ handle, session.answer (.openHandle text) = .ok (.handle handle)) ↔
      ∃ target, session.image.locate text = .ok target := by
  obtain ⟨cause, hlocate, hrun⟩ | ⟨handle, target, hlocate, -, -, hrun⟩ :=
    Volume.openHandle_performs h.fits.attached h.sound.toSound text
  · have hperforms : Performs ((Call.openHandle text).perform session.volume) session.image sectors
        (.error (.error cause)) [] := hrun.stop
    rw [h.answer_of_performs hperforms, hlocate]
    simp [Except.map]
  · have hperforms : Performs ((Call.openHandle text).perform session.volume) session.image sectors
        (.ok (.handle handle, session.volume)) [] :=
      hrun.map fun handle ↦ (Answer.handle handle, session.volume)
    exact ⟨fun _ ↦ ⟨target, hlocate⟩, fun _ ↦ ⟨handle, h.answer_of_performs hperforms⟩⟩

/-- What was just created can be opened if and only if its path has no zero character. -/
theorem Valid.opens_created (h : session.Valid sectors) {size : Nat} {isDirectory : Bool}
    (hcall : call.Creates text size isDirectory) (hdone : session.answer call = .ok .done) :
    (∃ handle, (session.step call).answer (.openHandle text) = .ok (.handle handle)) ↔
      '\x00' ∉ text.toList := by
  have hafter := (h.step (permits_of_creates hcall)).1
  rw [hafter.opens_iff]
  constructor
  · rintro ⟨target, htarget⟩
    exact Image.no_zero_of_locate htarget
  · intro hzero
    have haccepts : session.image.Accepts text size (session.image.freeMap sectors).free.length := by
      by_contra hnot
      have hanswer := (h.create_refused hcall hnot).1
      rw [hdone] at hanswer
      contradiction
    obtain ⟨-, -, path, directory, sector, hgains⟩ := h.create_done hcall hzero haccepts
    exact ⟨_, hgains.locate_eq⟩

/-- A component is kept by a table with room for it exactly if it has no zero character. While
nothing is created under a name with one, no directory has two entries with the same stored name,
and what was just created can be opened exactly if its path has none. -/
theorem names_kept (sectors : Nat) :
    (∀ text path name, Path.parse text = .ok path → name ∈ path.components →
      ∀ (directory : Directory) (sector : Nat) (isDirectory : Bool), sector < 2 ^ 32 →
        directory.find? name = none →
        (∃ index : Fin entryCount, directory.table[index].inUse = false) →
        ∃ entered, directory.add name sector isDirectory = .ok entered ∧
          ('\x00' ∉ name.toList → entered.Keeps name sector isDirectory) ∧
          ('\x00' ∈ name.toList → entered.Ignores name)) ∧
    (∀ session, Plain sectors session → ∀ place directory,
      session.image.targetAt place = some ⟨directory, true⟩ →
      ∀ index other : Fin entryCount,
        (session.image.table directory).table[index].inUse = true →
        (session.image.table directory).table[other].inUse = true →
        Name.storedKey (session.image.table directory).table[index].name =
          Name.storedKey (session.image.table directory).table[other].name → index = other) ∧
    (∀ session call text size isDirectory, Reached sectors session →
      call.Creates text size isDirectory → session.answer call = .ok .done →
      ((∃ handle, (session.step call).answer (.openHandle text) = .ok (.handle handle)) ↔
        '\x00' ∉ text.toList)) := by
  refine ⟨fun text path name hparse hname directory sector isDirectory hsector hfind hroom ↦ ?_,
    fun session hplain place directory hplace ↦ (hplain.legible place directory hplace).apart,
    fun session call text size isDirectory hreached hcall hdone ↦
      hreached.valid.opens_created hcall hdone⟩
  have hcomponent := Path.isComponent_of_parse hparse hname
  have habsent := Directory.find?_eq_none_iff.mp hfind
  cases hfree : directory.freeIndex? with
  | none =>
    obtain ⟨index, hunused⟩ := hroom
    rw [Directory.freeIndex?_eq_none_iff.mp hfree index] at hunused
    contradiction
  | some index =>
    exact ⟨_, Directory.add_eq_ok habsent hfree,
      fun hzero ↦ Directory.keeps_of_plain ⟨hcomponent, hzero⟩ hsector habsent,
      fun hzero ↦ Directory.ignores_of_zero hcomponent.fits hzero⟩

/-- A name that ends with a zero character is entered into an empty table and not found there. -/
theorem names_kept_zero : (∃ entered, Directory.empty.add "a\x00" 13 false = .ok entered ∧
      entered.find? "a\x00" = none) ∧
    ∃ entered, Directory.empty.add "a" 13 false = .ok entered ∧ entered.find? "a" = some 13 := by
  have hroom : ∃ index : Fin entryCount, (Directory.empty.table[index]).inUse = false :=
    ⟨0, Directory.inUse_empty 0⟩
  have habsent (name : String) : Directory.empty.find? name = none :=
    Directory.find?_eq_none_iff.mpr (Directory.index?_empty name)
  obtain ⟨hnames, -, -⟩ := names_kept 64
  obtain ⟨entered, hadd, -, hignores⟩ := hnames "/a\x00" ⟨["a\x00"]⟩ "a\x00" (by rfl)
    List.mem_cons_self Directory.empty 13 false (by decide) (habsent _) hroom
  obtain ⟨other, hother, hkeeps, -⟩ := hnames "/a" ⟨["a"]⟩ "a" (by rfl)
    List.mem_cons_self Directory.empty 13 false (by decide) (habsent _) hroom
  exact ⟨⟨entered, hadd, (hignores (by decide)).find_eq⟩, other, hother,
    (hkeeps (by decide)).find_eq⟩

end Session

end SectorFS
