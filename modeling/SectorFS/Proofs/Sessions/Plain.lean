import SectorFS.Proofs.Naming.Legible
import SectorFS.Proofs.Sessions.Formatted

/-!
# Sessions without zero characters

An entry ends its name at the first zero byte, so a volume tells its names apart as long as
nothing is created at a path with a zero character. In a session that keeps to this every
directory is legible: a creation enters a plain component that is new, a removal frees an
entry, and no other call changes a table.
-/

namespace SectorFS

variable {image : Image} {sectors : Nat} {session : Session} {call : Call}

/-- The call creates nothing at a path with a zero character. -/
def Call.Plain (call : Call) : Prop :=
  ∀ text size isDirectory, call.Creates text size isDirectory → '\x00' ∉ text.toList

/-! ## Changes of an image -/

namespace Image

theorem Created.legible {directory : Nat} {index : Fin entryCount} {name : String} {size : Nat}
    {isDirectory : Bool} {height : Fin maxLevel} {sector : Nat} {node : Node}
    {fresh table map : List Write} {path : Path} {parent : Place}
    (hcreated : image.Created sectors directory index name size isDirectory height sector node fresh
      table map) (h : image.Sound sectors)
    (hadmits : image.Admits sectors path size parent directory name index height)
    (hplain : Path.IsPlain name) (hlegible : image.Legible) :
    (image.putAll (fresh ++ (table ++ map))).Legible := by
  intro place found hplace
  obtain hempty | ⟨hfound, hsame | ⟨rfl, hentered⟩⟩ := table_cases hcreated h hadmits hplace
  · rw [hempty]
    exact Directory.Legible.empty
  · rw [hsame]
    exact hlegible place found hfound
  · rw [hentered]
    exact (hlegible place found hfound).enter hplain hadmits.absent sector isDirectory

theorem Removed.legible {directory : Nat} {index : Fin entryCount} {target : Target}
    {table map : List Write} {path : Path} {parent : Place} {name : String}
    (hremoved : image.Removed sectors directory index target table map) (h : image.Sound sectors)
    (hnames : image.Names path parent directory name index target) (hlegible : image.Legible) :
    (image.putAll (table ++ map)).Legible := by
  intro place found hplace
  obtain ⟨hfound, hsame | hfreed⟩ := table_cases hremoved h hnames hplace
  · rw [hsame]
    exact hlegible place found hfound
  · rw [hfreed]
    exact (hlegible place found hfound).free index

theorem legible_written {place : Place} {sector position : Nat} {data : ByteArray}
    {writes : List Write} (hsplices : image.Overwrites sector position data writes)
    (h : image.Sound sectors) (hplace : image.targetAt place = some ⟨sector, false⟩)
    (hlegible : image.Legible) : (image.putAll writes).Legible := by
  intro above found habove
  rw [targetAt_written hsplices h hplace] at habove
  rw [table_unwritten hsplices h hplace habove]
  exact hlegible above found habove

end Image

namespace Session

/-- A call that creates nothing at a path with a zero character leaves every directory legible. -/
theorem Valid.legible_step (h : session.Valid sectors) (hlegible : session.image.Legible)
    (hpermits : session.Permits call) (hplain : call.Plain) :
    (session.step call).image.Legible := by
  obtain ⟨outcome, writes, hrun, heffect⟩ | hlooks := h.performed_of_permits hpermits
  · rw [h.image_of_performs hrun]
    cases heffect with
    | @created _ text size _ _ isDirectory path _ name _ _ _ _ _ _ hcall hparse hadmits hcreated =>
      have hname : name ∈ path.components :=
        Path.eq_concat_of_lastName? hadmits.name_eq ▸ List.mem_append_right _ List.mem_cons_self
      exact hcreated.legible h.sound hadmits
        (Path.isPlain_of_parse hparse (hplain text size isDirectory hcall) hname) hlegible
    | removed hcall hparse hnames hremoved => exact hremoved.legible h.sound hnames hlegible
    | written hslot hsplices =>
      obtain ⟨⟨place, hplace⟩, -⟩ := h.intact_of_live (hpermits _ _ hslot)
      exact Image.legible_written hsplices h.whole hplace hlegible
    | writtenAt _ hsplices =>
      obtain ⟨⟨place, hplace⟩, -⟩ := h.intact_of_live hpermits
      exact Image.legible_written hsplices h.whole hplace hlegible
    | refused | listed | handed | opened | read | closed | remounted => exact hlegible
  · obtain ⟨final, live, hstep, halike, -⟩ := hlooks.step_eq
    have himage : Session.image ⟨final, session.volume, live⟩ = session.image := halike.sector_eq
    rwa [hstep, himage]

/-! ## Runs -/

/-- The sessions that start with a successful format and go on with permitted calls that create
nothing at a path with a zero character. -/
inductive Plain (sectors : Nat) : Session → Prop
  | format {drive formatted : Drive} {volume : Volume}
      (hcount : drive.disk.sectorCount = sectors)
      (hsize : sectors * sectorSize ≤ drive.disk.medium.size)
      (hfaults : drive.disk.faults = .none)
      (hformat : Volume.format drive = .ok volume formatted) :
      Plain sectors (begin formatted volume)
  | call {session : Session} {call : Call} (hsession : Plain sectors session)
      (hpermits : session.Permits call) (hplain : call.Plain) : Plain sectors (session.step call)

/-- Formatting a blank disk starts such a session. -/
theorem Plain.blank {formatted : Drive} {volume : Volume}
    (hformat : Volume.format (.blank sectors) = .ok volume formatted) :
    Plain sectors (begin formatted volume) :=
  .format rfl (size_zeroBytes _).ge rfl hformat

/-- A creation at a path without a zero character goes on with such a session. -/
theorem Plain.creates (h : Plain sectors session) {text : String} {size : Nat} {isDirectory : Bool}
    (hcall : call.Creates text size isDirectory) (hzero : '\x00' ∉ text.toList) :
    Plain sectors (session.step call) := by
  refine h.call (permits_of_creates hcall) fun other length kind hother ↦ ?_
  cases hcall <;> cases hother <;> exact hzero

theorem Plain.reached (h : Plain sectors session) : Reached sectors session := by
  induction h with
  | format hcount hsize hfaults hformat => exact .format hcount hsize hfaults hformat
  | call hsession hpermits hplain ih => exact ih.call hpermits

theorem Plain.legible (h : Plain sectors session) : session.image.Legible := by
  induction h with
  | format hcount hsize hfaults hformat =>
    obtain ⟨-, hempty, -⟩ := begin_valid hcount hsize hfaults hformat
    intro place directory hplace
    cases place using List.reverseRecOn with
    | nil =>
      obtain rfl := (Target.mk.inj (Option.some.inj hplace)).1
      rw [hempty]
      exact Directory.Legible.empty
    | append_singleton below index =>
      have hnone := (Image.targetAt_cons_of_directory (Image.targetAt_nil _)).trans
        (Image.child?_of_empty hempty index)
      rw [Image.targetAt_append_of_none hnone] at hplace
      contradiction
  | call hsession hpermits hplain ih =>
    exact hsession.reached.valid.legible_step ih hpermits hplain

end Session

end SectorFS
