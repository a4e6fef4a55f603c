import SectorFS.Proofs.Composed

/-!
# What an operation leaves alone and what it does not see

Looking into a volume leaves the content of the disk, its size and its faults as they were,
whether the operation succeeds, stops with an error or traps, and whatever it has been
given: this needs no well-formed disk and no valid handle, because such an operation asks
for reads only.

And on a disk that refuses nothing no operation sees the journal or how much has passed over the
disk: disks that differ in these only give the same results and go on to differ in these only.
-/

namespace SectorFS

/-- The disks differ in the traffic that has passed over them at most. -/
structure Disk.Alike (before after : Disk) : Prop where
  medium_eq : after.medium = before.medium
  sectorCount_eq : after.sectorCount = before.sectorCount
  faults_eq : after.faults = before.faults
  written_eq : after.written = before.written

namespace Disk.Alike

variable {first second third : Disk}

theorem refl (disk : Disk) : disk.Alike disk := ⟨rfl, rfl, rfl, rfl⟩

theorem trans (h : first.Alike second) (hnext : second.Alike third) : first.Alike third :=
  ⟨hnext.medium_eq.trans h.medium_eq, hnext.sectorCount_eq.trans h.sectorCount_eq,
    hnext.faults_eq.trans h.faults_eq, hnext.written_eq.trans h.written_eq⟩

theorem sector_eq (h : first.Alike second) : second.sector = first.sector := by
  funext number
  rw [sector, sector, h.medium_eq]

theorem holds (h : first.Alike second) {image : Image} {sectors : Nat}
    (hholds : first.Holds image sectors) : second.Holds image sectors where
  sectorCount_eq := h.sectorCount_eq.trans hholds.sectorCount_eq
  le_size := by
    rw [h.medium_eq]
    exact hholds.le_size
  sector_eq := h.sector_eq.trans hholds.sector_eq

end Disk.Alike

/-- A disk that has served requests without a write among them is as it was. -/
theorem Disk.alike_of_serveAll {disk served : Disk} {requests : List Request}
    (h : disk.serveAll requests = .ok served) (hnone : writesOf requests = []) :
    disk.Alike served := by
  induction requests generalizing disk with
  | nil =>
    obtain rfl := Except.ok.inj h
    exact .refl disk
  | cons request rest ih =>
    rw [serveAll_cons, serve] at h
    split at h
    · contradiction
    · have hfirst : disk.Alike (disk.carryOut request) := by
        cases request with
        | read number => exact ⟨rfl, rfl, rfl, rfl⟩
        | write number content => contradiction
        | sync => exact .refl disk
      have hrest : writesOf rest = [] := by
        cases request with
        | read number => exact hnone
        | write number content => contradiction
        | sync => exact hnone
      exact hfirst.trans (ih h hrest)

/-- An operation without writes leaves a disk that refuses nothing as it was. -/
theorem Performs.alike {α : Type} {action : Action α} {image : Image} {sectors : Nat}
    {outcome : Except Stop α} (h : Performs action image sectors outcome []) {drive : Drive}
    (hdrive : drive.disk.Holds image sectors) (hfaults : drive.disk.faults = .none) :
    ∃ final : Drive, action drive = conclude outcome final ∧ drive.disk.Alike final.disk := by
  obtain ⟨requests, hnone, h⟩ := h
  obtain ⟨journal, hrun⟩ := h drive hdrive
  obtain ⟨disk, hserve⟩ := Disk.exists_serveAll_of_faultless hfaults requests
  rw [hserve] at hrun
  exact ⟨⟨disk, journal⟩, hrun, Disk.alike_of_serveAll hserve hnone⟩

/-! ## Reading only -/

/-- The drive that an operation has reached. -/
def reached {α : Type} : EStateM.Result Stop Drive α → Drive
  | .ok _ drive => drive
  | .error _ drive => drive

/-- The operation leaves the disk as it was, however it ends. -/
def Quiet {α : Type} (action : Action α) : Prop :=
  ∀ drive : Drive, drive.disk.Alike (reached (action drive)).disk

/-- An action without writes is quiet. -/
theorem Composed.quiet {α : Type} {action : Action α} (h : Composed False action) :
    Quiet action := by
  induction h with
  | pure value => exact fun drive ↦ .refl drive.disk
  | throw stop => exact fun drive ↦ .refl drive.disk
  | note severity text => exact fun drive ↦ .refl drive.disk
  | sectorCount => exact fun drive ↦ .refl drive.disk
  | readSector number =>
    intro drive
    rw [Drive.readSector, Drive.readSectorInto]
    split
    · exact ⟨rfl, rfl, rfl, rfl⟩
    · exact ⟨rfl, rfl, rfl, rfl⟩
  | writeSector allowed number content => exact allowed.elim
  | sync =>
    intro drive
    rw [Drive.sync]
    split
    · exact .refl drive.disk
    · exact .refl drive.disk
  | @bind _ _ action next _ _ haction hnext =>
    intro drive
    have hfirst := haction drive
    show drive.disk.Alike (reached (EStateM.bind action next drive)).disk
    rw [EStateM.bind]
    cases hrun : action drive with
    | error stop final =>
      rw [hrun] at hfirst
      exact hfirst
    | ok value final =>
      rw [hrun] at hfirst
      exact hfirst.trans (hnext value final)

/-! ## What cannot be seen -/

/-- On disks that refuse nothing and are alike, the operation ends in the same way and leaves disks
that are alike. -/
def Blind {α : Type} (action : Action α) : Prop :=
  ∀ left right : Drive, left.disk.Alike right.disk → left.disk.faults = .none →
    ∃ (outcome : Except Stop α) (first second : Drive), action left = conclude outcome first ∧
      action right = conclude outcome second ∧ first.disk.Alike second.disk ∧
      first.disk.faults = .none

theorem Disk.Alike.readRefusal?_eq {left right : Disk} (h : left.Alike right)
    (hfaults : left.faults = .none) (number room : Nat) :
    right.readRefusal? number room = left.readRefusal? number room := by
  rw [Disk.readRefusal?, Disk.readRefusal?, h.faults_eq, hfaults, h.sectorCount_eq, h.medium_eq]
  rfl

theorem Disk.Alike.writeRefusal?_eq {left right : Disk} (h : left.Alike right)
    (hfaults : left.faults = .none) (number : Nat) :
    right.writeRefusal? number = left.writeRefusal? number := by
  rw [Disk.writeRefusal?, Disk.writeRefusal?, h.faults_eq, hfaults, h.sectorCount_eq]
  rfl

theorem Disk.Alike.store {left right : Disk} (h : left.Alike right) (number : Nat)
    (data : ByteArray) : (left.store number data).Alike (right.store number data) := by
  constructor
  all_goals simp only [Disk.store_eq, h.medium_eq, h.sectorCount_eq, h.faults_eq, h.written_eq]

/-- No action that is put together from requests sees more than the medium, the number of sectors
and what was written. -/
theorem Composed.blind {writes : Prop} {α : Type} {action : Action α}
    (h : Composed writes action) : Blind action := by
  induction h with
  | pure value =>
    exact fun left right halike hfaults ↦ ⟨.ok value, left, right, rfl, rfl, halike, hfaults⟩
  | throw stop =>
    exact fun left right halike hfaults ↦ ⟨.error stop, left, right, rfl, rfl, halike, hfaults⟩
  | note severity text =>
    exact fun left right halike hfaults ↦ ⟨.ok (), _, _, rfl, rfl, halike, hfaults⟩
  | sectorCount =>
    intro left right halike hfaults
    refine ⟨.ok left.disk.sectorCount, left, right, rfl, ?_, halike, hfaults⟩
    rw [Drive.sectorCount, halike.sectorCount_eq]
    rfl
  | readSector number =>
    intro left right halike hfaults
    have hrefusal := halike.readRefusal?_eq hfaults number sectorSize
    rw [Drive.readSector, Drive.readSectorInto, Drive.readSectorInto, hrefusal]
    cases left.disk.readRefusal? number sectorSize with
    | none =>
      rw [congrFun halike.sector_eq number]
      exact ⟨.ok _, _, _, rfl, rfl, ⟨halike.medium_eq, halike.sectorCount_eq, halike.faults_eq,
        halike.written_eq⟩, hfaults⟩
    | some stop =>
      exact ⟨.error stop, _, _, rfl, rfl, ⟨halike.medium_eq, halike.sectorCount_eq,
        halike.faults_eq, halike.written_eq⟩, hfaults⟩
  | writeSector allowed number content =>
    intro left right halike hfaults
    have hrefusal := halike.writeRefusal?_eq hfaults number
    rw [Drive.writeSector, Drive.writeBytes, Drive.writeBytes, hrefusal]
    cases left.disk.writeRefusal? number with
    | none =>
      exact ⟨.ok (), _, _, rfl, rfl, halike.store number content.bytes,
        (Disk.faults_store _ _ _).trans hfaults⟩
    | some stop =>
      exact ⟨.error stop, _, _, rfl, rfl, ⟨halike.medium_eq, halike.sectorCount_eq,
        halike.faults_eq, halike.written_eq⟩, hfaults⟩
  | sync =>
    intro left right halike hfaults
    rw [Drive.sync, Drive.sync, halike.faults_eq, hfaults]
    exact ⟨.ok (), left, right, rfl, rfl, halike, hfaults⟩
  | @bind _ _ action next _ _ haction hnext =>
    intro left right halike hfaults
    obtain ⟨outcome, first, second, hfirst, hsecond, hreached, hnone⟩ :=
      haction left right halike hfaults
    change ∃ _ _ _, EStateM.bind action next left = _ ∧ EStateM.bind action next right = _ ∧ _
    rw [EStateM.bind, EStateM.bind, hfirst, hsecond]
    cases outcome with
    | ok value => exact hnext value first second hreached hnone
    | error stop => exact ⟨.error stop, first, second, rfl, rfl, hreached, hnone⟩

end SectorFS
