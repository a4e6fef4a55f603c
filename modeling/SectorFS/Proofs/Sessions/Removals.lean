import SectorFS.Proofs.Removal.Names
import SectorFS.Proofs.Sessions.Creations
import SectorFS.Proofs.Sessions.Plain

/-!
# The exact effect of a removal

A removal in a session succeeds if and only if the path leads to something below the root
directory that it may remove: a file or a directory without entries, or anything at all if what
is below is to be removed as well. Then the path and the paths below it lead nowhere, every
other path is followed as before, the parent directory has one entry less, no other file
changes, and the map has given back the sectors of what is gone and no others.
-/

namespace SectorFS

variable {sectors : Nat} {session : Session} {call : Call} {text : String} {path : Path}

namespace Session

/-- The path with the given text leads to something below the root directory. -/
def LeadsTo (session : Session) (text : String) (target : Target) : Prop :=
  ∃ path, Path.parse text = .ok path ∧ 1 ≤ path.depth ∧ session.resolve text = .ok target

/-- What a removal takes away: the path and those below it, its entry in the parent directory, and
the sectors of what they led to. Everything else is as it was. -/
structure Loses (session after : Session) (sectors : Nat) (path : Path) (directory : Nat) :
    Prop where
  gone : ∀ other whole, Path.parse other = .ok whole → path.components <+: whole.components →
    after.resolve other = .error (.error .notFound)
  kept : ∀ other, (∀ whole, Path.parse other = .ok whole → ¬ path.components <+: whole.components) →
    after.resolve other = session.resolve other
  same : ∀ other target, after.resolve other = .ok target →
    after.image.node? target.sector = session.image.node? target.sector ∧
      (target.sector ≠ directory →
        after.image.content target.sector = session.image.content target.sector)
  freed : ∃ name index, path.lastName? = some name ∧
    (session.image.table directory).index? name = some index ∧
    after.image.content directory = ((session.image.table directory).free index).toBytes
  returned : ∀ sector, ((after.image.freeMap sectors).isUsed sector ≠
    (session.image.freeMap sectors).isUsed sector) ↔ session.image.Under path sector
  clear : ∀ sector, session.image.Under path sector →
    (after.image.freeMap sectors).isUsed sector = false

/-- The loss of a file gives back its root and its tree. -/
theorem Loses.length_free {after : Session} {directory file : Nat}
    (hloses : session.Loses after sectors path directory) (h : session.Valid sectors)
    (hparse : Path.parse text = .ok path) (hfile : session.image.locate text = .ok ⟨file, false⟩) :
    (after.image.freeMap sectors).free.length =
      (session.image.freeMap sectors).free.length + (session.image.extent file).length := by
  obtain ⟨place, hplace⟩ := Image.exists_place_of_locate hfile
  obtain ⟨node, hintact⟩ := h.sound.intact_item hplace
  have hunder {sector : Nat} :
      session.image.Under path sector ↔ sector ∈ session.image.extent file :=
    Image.under_iff_of_file hparse hfile
  refine FreeMap.length_free_of_returned ?_ hintact.nodup (fun sector hsector ↦ ?_)
    (fun sector ↦ (hloses.returned sector).trans hunder)
    fun sector hsector ↦ hloses.clear sector (hunder.mpr hsector)
  · rw [Image.Sound.sectors_freeMap, Image.Sound.sectors_freeMap]
  · rw [Image.Sound.sectors_freeMap]
    exact hintact.lt sector hsector

namespace Valid

theorem leadsTo_iff (h : session.Valid sectors) {target : Target} :
    session.LeadsTo text target ↔ ∃ path name, Volume.Leads session.image text path name target := by
  constructor
  · rintro ⟨path, hparse, hdepth, hresolve⟩
    obtain ⟨name, hname⟩ : ∃ name, path.lastName? = some name := by
      cases hlast : path.lastName? with
      | none =>
        rw [Path.depth, List.getLast?_eq_none_iff.mp hlast] at hdepth
        contradiction
      | some name => exact ⟨name, rfl⟩
    rw [h.resolve_eq_ok, Image.locate_of_parse hparse] at hresolve
    exact ⟨path, name, hparse, hname, hresolve⟩
  · rintro ⟨path, name, hparse, hname, htarget⟩
    refine ⟨path, hparse, ?_, h.resolve_eq_ok.mpr ((Image.locate_of_parse hparse).trans htarget)⟩
    rw [Path.depth, Path.eq_concat_of_lastName? hname, List.length_append, List.length_singleton]
    omega

/-- A removal that is carried out has the effect of a removal. -/
theorem loses (h : session.Valid sectors) (hlegible : session.image.Legible)
    {after : Session} (hafter : after.Valid sectors) {parent : Place} {directory : Nat}
    {name : String} {index : Fin entryCount} {target : Target} {table map : List Write}
    (himage : after.image = session.image.putAll (table ++ map))
    (hparse : Path.parse text = .ok path)
    (hnames : session.image.Names path parent directory name index target)
    (hremoved : session.image.Removed sectors directory index target table map) :
    session.Loses after sectors path directory := by
  have hunder {sector : Nat} : session.image.Under path sector ↔
      sector ∈ session.image.treeSectors (sectors + 3) target :=
    hnames.under_iff h.sound hlegible hparse
  have hparent := Image.Removed.parent_final hremoved h.sound hnames
  rw [← himage] at hparent
  constructor
  case gone =>
    intro other whole hwhole hprefix
    rw [hafter.resolve_eq, himage,
      Image.Removed.locate_final hremoved h.sound hnames hlegible hparse hwhole, if_pos hprefix]
    rfl
  case kept =>
    intro other hother
    rw [hafter.resolve_eq, h.resolve_eq, himage]
    cases hwhole : Path.parse other with
    | error fault => rw [Image.locate, Image.locate, hwhole]
    | ok whole =>
      rw [Image.Removed.locate_final hremoved h.sound hnames hlegible hparse hwhole,
        if_neg (hother whole hwhole)]
  case same =>
    intro other found hfound
    rw [hafter.resolve_eq_ok, himage] at hfound
    obtain ⟨place, hplace⟩ := Image.exists_place_of_locate hfound
    rw [Image.Removed.targetAt_final hremoved h.sound hnames] at hplace
    split at hplace
    · contradiction
    · have hunmoved := Image.Removed.unmoved_final hremoved h.sound hnames _ _
        (Image.headOf_item hplace)
      rw [himage]
      refine ⟨Image.node?_of_spine hunmoved, fun hne ↦ ?_⟩
      apply Image.Removed.content_final hremoved h.sound hnames hplace
      intro hsame
      rw [hsame, hnames.place_eq] at hplace
      exact hne (by rw [← Option.some.inj hplace])
  case freed =>
    refine ⟨name, index, hnames.name_eq, hnames.index_eq, ?_⟩
    rw [Image.content_eq_toBytes (hafter.sound.size_directory parent directory hparent), himage,
      Image.Removed.table_final hremoved h.sound hnames]
  case returned =>
    intro sector
    rw [hunder, himage, Image.Removed.isUsed_final hremoved h.sound hnames]
    by_cases hsector : sector ∈ session.image.treeSectors (sectors + 3) target
    · simp [hsector, hnames.isUsed_of_mem h.sound hsector]
    · simp [hsector]
  case clear =>
    intro sector hsector
    rw [himage, Image.Removed.isUsed_final hremoved h.sound hnames,
      decide_eq_true (hunder.mp hsector), Bool.not_true, Bool.and_false]

/-- A removal that frees the entry of its path is done and has the effect of a removal. -/
theorem removal_done (h : session.Valid sectors) (hlegible : session.image.Legible)
    (hpermits : session.Permits call) {action : Action Volume}
    (hcall : call.perform session.volume = do return (.done, ← action)) {name : String}
    {target : Target} (hleads : Volume.Leads session.image text path name target)
    (hfrees : Volume.Frees action session.volume session.image sectors path name target) :
    session.answer call = .ok .done ∧ ∃ path directory, Path.parse text = .ok path ∧
      session.image.resolve ⟨path.components.dropLast⟩ = .ok ⟨directory, true⟩ ∧
      session.Loses (session.step call) sectors path directory := by
  obtain ⟨parent, directory, index, table, map, hnames, hrun, hremoved⟩ := hfrees
  have hperforms := hrun.map fun volume ↦ (Answer.done, volume)
  rw [← hcall] at hperforms
  exact ⟨h.answer_of_performs hperforms, path, directory, hleads.parse_eq,
    Image.resolveParent_eq_ok.mp hnames.parent_eq, h.loses hlegible (h.step hpermits).1
      (h.image_of_performs hperforms) hleads.parse_eq hnames hremoved⟩

/-- A removal that is refused answers with what stops it. -/
theorem removal_refused (h : session.Valid sectors) {action : Action Volume}
    (hcall : call.perform session.volume = do return (.done, ← action)) {cause : Error}
    (hrun : Performs action session.image sectors (.error (.error cause)) []) :
    session.answer call = .error (.error cause) :=
  h.answer_of_performs (hcall ▸ hrun.stop)

section

variable (h : session.Valid sectors) {target : Target}

include h

/-- A file or an empty directory is removed. -/
theorem remove_done (hlegible : session.image.Legible) (hto : session.LeadsTo text target)
    (hchildless : target.isDirectory = true →
      (session.image.table target.sector).isEmpty = true) :
    session.answer (.remove text) = .ok .done ∧ ∃ path directory, Path.parse text = .ok path ∧
      session.image.resolve ⟨path.components.dropLast⟩ = .ok ⟨directory, true⟩ ∧
      session.Loses (session.step (.remove text)) sectors path directory := by
  obtain ⟨path, name, hleads⟩ := h.leadsTo_iff.mp hto
  exact h.removal_done hlegible trivial rfl hleads
    (Volume.remove_frees h.fits.attached h.sound hleads (h.fits.covered h.sound) hchildless)

/-- A file or a directory is removed with everything below it. -/
theorem removeTree_done (hlegible : session.image.Legible) (hto : session.LeadsTo text target) :
    session.answer (.removeTree text) = .ok .done ∧ ∃ path directory, Path.parse text = .ok path ∧
      session.image.resolve ⟨path.components.dropLast⟩ = .ok ⟨directory, true⟩ ∧
      session.Loses (session.step (.removeTree text)) sectors path directory := by
  obtain ⟨path, name, hleads⟩ := h.leadsTo_iff.mp hto
  exact h.removal_done hlegible trivial rfl hleads
    (Volume.removeTree_frees h.fits.attached h.sound hleads (h.fits.covered h.sound))

/-- A directory with entries is not removed alone. -/
theorem remove_occupied (hto : session.LeadsTo text target) (hkind : target.isDirectory = true)
    (hentries : (session.image.table target.sector).isEmpty = false) :
    session.answer (.remove text) = .error (.error .directoryNotEmpty) := by
  obtain ⟨path, name, hleads⟩ := h.leadsTo_iff.mp hto
  exact h.removal_refused rfl
    (Volume.remove_occupied h.fits.attached h.sound hleads hkind hentries)

/-- Where nothing is, nothing is removed. -/
theorem removal_nowhere (hnot : ∀ target, ¬ session.LeadsTo text target)
    (hcall : call = .remove text ∨ call = .removeTree text) :
    ∃ cause, session.answer call = .error (.error cause) := by
  have hleads (path : Path) (name : String) (target : Target) :
      ¬ Volume.Leads session.image text path name target := fun hfound ↦
    hnot target (h.leadsTo_iff.mpr ⟨path, name, hfound⟩)
  rcases hcall with rfl | rfl
  · refine ⟨session.image.removalRefusal text, h.removal_refused rfl ?_⟩
    rw [Volume.remove_eq]
    exact Volume.atTarget_refused h.fits.attached h.sound.toSound hleads
  · refine ⟨session.image.removalRefusal text, h.removal_refused rfl ?_⟩
    rw [Volume.removeTree_eq]
    exact Volume.atTarget_refused h.fits.attached h.sound.toSound hleads

theorem leadsTo_of_removal (hcall : call = .remove text ∨ call = .removeTree text)
    (hdone : session.answer call = .ok .done) : ∃ target, session.LeadsTo text target := by
  by_contra hnot
  obtain ⟨cause, hanswer⟩ := h.removal_nowhere (fun target hto ↦ hnot ⟨target, hto⟩) hcall
  rw [hdone] at hanswer
  contradiction

theorem childless_of_remove (hdone : session.answer (.remove text) = .ok .done)
    (hto : session.LeadsTo text target) (hkind : target.isDirectory = true) :
    (session.image.table target.sector).isEmpty = true := by
  by_contra hentries
  rw [Bool.not_eq_true] at hentries
  rw [h.remove_occupied hto hkind hentries] at hdone
  contradiction

end

end Valid

/-- A file or an empty directory is removed, and a directory with everything below it, exactly if
the path leads to one below the root directory; the effect is exactly the loss of what is removed. -/
theorem Plain.removal (h : Plain sectors session) (text : String) :
    (session.answer (.remove text) = .ok .done ↔ ∃ target, session.LeadsTo text target ∧
      (target.isDirectory = true → (session.image.table target.sector).isEmpty = true)) ∧
    (∀ target, session.LeadsTo text target → target.isDirectory = true →
      (session.image.table target.sector).isEmpty = false →
        session.answer (.remove text) = .error (.error .directoryNotEmpty)) ∧
    (session.answer (.removeTree text) = .ok .done ↔ ∃ target, session.LeadsTo text target) ∧
    ∀ call, call = .remove text ∨ call = .removeTree text → session.answer call = .ok .done →
      ∃ path directory, Path.parse text = .ok path ∧
        session.image.resolve ⟨path.components.dropLast⟩ = .ok ⟨directory, true⟩ ∧
        session.Loses (session.step call) sectors path directory := by
  have hvalid := h.reached.valid
  refine ⟨⟨fun hdone ↦ ?_, ?_⟩, fun target hto hkind hentries ↦
    hvalid.remove_occupied hto hkind hentries, ⟨hvalid.leadsTo_of_removal (.inr rfl), ?_⟩,
    fun call hcall hdone ↦ ?_⟩
  · obtain ⟨target, hto⟩ := hvalid.leadsTo_of_removal (.inl rfl) hdone
    exact ⟨target, hto, hvalid.childless_of_remove hdone hto⟩
  · rintro ⟨target, hto, hchildless⟩
    exact (hvalid.remove_done h.legible hto hchildless).1
  · rintro ⟨target, hto⟩
    exact (hvalid.removeTree_done h.legible hto).1
  · obtain ⟨target, hto⟩ := hvalid.leadsTo_of_removal hcall hdone
    rcases hcall with rfl | rfl
    · exact (hvalid.remove_done h.legible hto (hvalid.childless_of_remove hdone hto)).2
    · exact (hvalid.removeTree_done h.legible hto).2

/-- A session in which a file was created on a new volume. -/
theorem exists_plain_created : ∃ volume formatted, Volume.format (.blank 64) = .ok volume formatted ∧
    let session := (begin formatted volume).step (.create "/a" 300)
    Plain 64 session ∧ ∃ sector, session.LeadsTo "/a" ⟨sector, false⟩ := by
  obtain ⟨volume, formatted, hformat, -, -, -, -, sector, hgains⟩ := exists_created_small
  have hsession : Plain 64 ((begin formatted volume).step (.create "/a" 300)) :=
    (Plain.blank hformat).creates (.file "/a" 300) (by decide)
  exact ⟨volume, formatted, hformat, hsession, sector, ⟨["a"]⟩, by rfl, Nat.le_refl 1,
    hsession.reached.valid.resolve_eq_ok.mpr hgains.locate_eq⟩

/-- The file of a new volume is removed, and its path leads nowhere then. -/
theorem removal_first : ∃ volume formatted, Volume.format (.blank 64) = .ok volume formatted ∧
    let session := (begin formatted volume).step (.create "/a" 300)
    session.answer (.remove "/a") = .ok .done ∧
      (session.step (.remove "/a")).resolve "/a" = .error (.error .notFound) := by
  obtain ⟨volume, formatted, hformat, hplain, sector, hto⟩ := exists_plain_created
  obtain ⟨hremove, -, -, heffect⟩ := Plain.removal hplain "/a"
  have hdone := hremove.mpr ⟨_, hto, fun hfalse ↦ absurd hfalse Bool.false_ne_true⟩
  obtain ⟨path, directory, hparse, -, hloses⟩ := heffect _ (.inl rfl) hdone
  exact ⟨volume, formatted, hformat, hdone, hloses.gone "/a" path hparse (List.prefix_refl _)⟩

/-- The root directory leads to other bytes after a removal than before. -/
theorem removal_changes_parent : ∃ volume formatted,
    Volume.format (.blank 64) = .ok volume formatted ∧
      let session := (begin formatted volume).step (.create "/a" 300)
      session.answer (.remove "/a") = .ok .done ∧
        session.resolve "/" = .ok ⟨rootSector, true⟩ ∧
        (session.step (.remove "/a")).image.content rootSector ≠
          session.image.content rootSector := by
  obtain ⟨volume, formatted, hformat, hplain, sector, hto⟩ := exists_plain_created
  have hvalid := hplain.reached.valid
  obtain ⟨hdone, path, directory, hparse, hparent, hloses⟩ := hvalid.remove_done hplain.legible hto
    fun hfalse ↦ absurd hfalse Bool.false_ne_true
  refine ⟨volume, formatted, hformat, hdone, hvalid.resolve_eq_ok.mpr rfl, fun hsame ↦ ?_⟩
  obtain rfl : path = ⟨["a"]⟩ := Except.ok.inj (hparse.symm.trans (by rfl))
  obtain rfl : rootSector = directory := (Target.mk.inj (Except.ok.inj hparent)).1
  obtain ⟨name, index, -, hindex, hcontent⟩ := hloses.freed
  have hused := Directory.inUse_of_index? hindex
  rw [Image.table_eq_of_content (hsame.symm.trans hcontent), Directory.free,
    Directory.table_update, if_pos rfl] at hused
  contradiction

end Session

end SectorFS
