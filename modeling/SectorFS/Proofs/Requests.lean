import SectorFS.Space
import Mathlib.Algebra.GroupWithZero.Nat
import Mathlib.Data.List.Basic

/-!
# Operations as sequences of requests

On a disk that holds the sectors it promises, what an operation asks for depends on the
content of the disk only, not on which accesses are refused: `Performs` says that an
operation has a fixed sequence of requests and a fixed outcome, and that on every such
disk it carries out the requests up to the first refused one. One statement of this kind
therefore covers the undisturbed run (`Performs.run`) and the run on a disk that accepts
a limited number of writes (`Performs.cut`).

Reads leave no trace in the content, so a statement names the writes alone.
-/

namespace SectorFS

/-! ## The content of a disk -/

/-- What a disk holds, sector by sector. -/
abbrev Image := Nat → Sector

/-- The number of a sector and the content written to it. -/
abbrev Write := Nat × Sector

namespace Image

def put (image : Image) (write : Write) : Image := fun number ↦
  if number = write.1 then write.2 else image number

def putAll (image : Image) (writes : List Write) : Image := writes.foldl put image

@[simp] theorem putAll_nil (image : Image) : image.putAll [] = image := rfl

@[simp] theorem putAll_cons (image : Image) (write : Write) (writes : List Write) :
    image.putAll (write :: writes) = (image.put write).putAll writes := rfl

theorem putAll_append (image : Image) (first rest : List Write) :
    image.putAll (first ++ rest) = (image.putAll first).putAll rest := List.foldl_append

@[simp] theorem put_self (image : Image) (number : Nat) (content : Sector) :
    image.put (number, content) number = content := if_pos rfl

theorem put_of_ne (image : Image) {write : Write} {number : Nat} (h : number ≠ write.1) :
    image.put write number = image number := if_neg h

/-- Writing what is there changes nothing. -/
theorem put_eq_self (image : Image) (number : Nat) : image.put (number, image number) = image := by
  funext other
  by_cases hother : other = number
  · rw [hother, put_self]
  · exact put_of_ne image hother

/-- Writes leave every other sector alone. -/
theorem putAll_of_not_mem (image : Image) {writes : List Write} {number : Nat}
    (h : number ∉ writes.map Prod.fst) : image.putAll writes number = image number := by
  induction writes generalizing image with
  | nil => rfl
  | cons write rest ih =>
    rw [List.map_cons, List.mem_cons, not_or] at h
    rw [putAll_cons, ih _ h.2, put_of_ne _ h.1]

/-- A sector that is written once holds what was written to it. -/
theorem putAll_of_mem (image : Image) {writes : List Write} (hnodup : (writes.map Prod.fst).Nodup)
    {write : Write} (h : write ∈ writes) : image.putAll writes write.1 = write.2 := by
  induction writes generalizing image with
  | nil => exact absurd h List.not_mem_nil
  | cons first rest ih =>
    rw [List.map_cons, List.nodup_cons] at hnodup
    rw [putAll_cons]
    rcases List.mem_cons.mp h with rfl | hrest
    · rw [putAll_of_not_mem _ hnodup.1, put_self]
    · exact ih _ hnodup.2 hrest

end Image

namespace Disk

/-- The disk has all the sectors it promises, with the given content. -/
structure Holds (disk : Disk) (image : Image) (sectors : Nat) : Prop where
  sectorCount_eq : disk.sectorCount = sectors
  le_size : sectors * sectorSize ≤ disk.medium.size
  sector_eq : disk.sector = image

theorem Holds.request {disk : Disk} {image : Image} {sectors : Nat}
    (h : disk.Holds image sectors) : disk.request.Holds image sectors :=
  ⟨h.sectorCount_eq, h.le_size, h.sector_eq⟩

theorem store_eq (disk : Disk) (number : Nat) (data : ByteArray) :
    disk.store number data =
      ⟨disk.medium.write (number * sectorSize) (data.extract 0 sectorSize), disk.sectorCount,
        disk.faults, ⟨disk.traffic.requests + 1, disk.traffic.writes + 1⟩,
        disk.written.push number⟩ := by
  unfold store
  rfl

theorem sectorCount_store (disk : Disk) (number : Nat) (data : ByteArray) :
    (disk.store number data).sectorCount = disk.sectorCount := by rw [store_eq]

theorem faults_store (disk : Disk) (number : Nat) (data : ByteArray) :
    (disk.store number data).faults = disk.faults := by rw [store_eq]

theorem writes_store (disk : Disk) (number : Nat) (data : ByteArray) :
    (disk.store number data).traffic.writes = disk.traffic.writes + 1 := by rw [store_eq]

theorem size_bytes (content : Sector) : content.bytes.size = sectorSize := content.size_toArray

theorem byteAt_bytes (content : Sector) {index : Nat} (h : index < sectorSize) :
    byteAt content.bytes index = content[index] := by
  rw [byteAt_of_lt (by rw [size_bytes]; exact h), ByteArray.getElem_eq_getElem_data]
  rfl

theorem extract_bytes (content : Sector) : content.bytes.extract 0 sectorSize = content.bytes := by
  rw [← size_bytes content, ByteArray.extract_zero_size]

theorem medium_store (disk : Disk) (number : Nat) (content : Sector) :
    (disk.store number content.bytes).medium =
      disk.medium.write (number * sectorSize) content.bytes := by
  rw [store_eq, extract_bytes]

theorem size_medium_store (disk : Disk) (number : Nat) (content : Sector) :
    (disk.store number content.bytes).medium.size =
      max disk.medium.size (number * sectorSize + sectorSize) := by
  rw [medium_store, Medium.size_write, size_bytes, if_neg (by decide)]

theorem sector_store (disk : Disk) (number : Nat) (content : Sector) :
    (disk.store number content.bytes).sector = Image.put disk.sector (number, content) := by
  funext other
  apply Vector.ext
  intro index hindex
  simp only [sectorSize] at hindex
  rw [sector, Sector.ofMedium, Vector.getElem_ofFn, medium_store, Medium.byteAt_write, size_bytes]
  by_cases hother : other = number
  · subst hother
    rw [Image.put_self, if_pos (by simp only [sectorSize]; omega), Nat.add_sub_cancel_left]
    exact byteAt_bytes content hindex
  · rw [Image.put_of_ne _ hother, if_neg (by simp only [sectorSize]; omega), sector,
      Sector.ofMedium, Vector.getElem_ofFn]

theorem Holds.store {disk : Disk} {image : Image} {sectors number : Nat}
    (h : disk.Holds image sectors) (content : Sector) :
    (disk.store number content.bytes).Holds (image.put (number, content)) sectors where
  sectorCount_eq := (sectorCount_store _ _ _).trans h.sectorCount_eq
  le_size := by
    rw [size_medium_store]
    exact Nat.le_trans h.le_size (Nat.le_max_left _ _)
  sector_eq := by rw [sector_store, h.sector_eq]

end Disk

/-! ## Requests -/

/-- What an operation asks a disk for. -/
inductive Request where
  | read (number : Nat)
  | write (number : Nat) (content : Sector)
  | sync

namespace Request

/-- The write that a request is, if it is one. -/
def write? : Request → Option Write
  | .read _ => none
  | .write number content => some (number, content)
  | .sync => none

end Request

/-- The writes among some requests, in order. -/
def writesOf (requests : List Request) : List Write := requests.filterMap Request.write?

theorem writesOf_append (first rest : List Request) :
    writesOf (first ++ rest) = writesOf first ++ writesOf rest := List.filterMap_append

namespace Disk

def refuses (disk : Disk) : Request → Bool
  | .read number => disk.faults.refusesRead disk.traffic number
  | .write number _ => disk.faults.refusesWrite disk.traffic number
  | .sync => disk.faults.refusesSync

def carryOut (disk : Disk) : Request → Disk
  | .read _ => disk.request
  | .write number content => disk.store number content.bytes
  | .sync => disk

/-- The disk after a request that was refused. -/
def turnDown (disk : Disk) : Request → Disk
  | .sync => disk
  | _ => disk.request

/-- Carries out a request, or stops at a refused one. -/
def serve (disk : Disk) (request : Request) : Except Disk Disk :=
  if disk.refuses request then .error (disk.turnDown request) else .ok (disk.carryOut request)

/-- Carries out requests up to the first refused one. -/
def serveAll (disk : Disk) (requests : List Request) : Except Disk Disk :=
  requests.foldlM serve disk

theorem serveAll_cons (disk : Disk) (request : Request) (requests : List Request) :
    disk.serveAll (request :: requests) = disk.serve request >>= (·.serveAll requests) := rfl

theorem serveAll_append (disk : Disk) (first rest : List Request) :
    disk.serveAll (first ++ rest) = disk.serveAll first >>= (·.serveAll rest) :=
  List.foldlM_append

theorem faults_carryOut (disk : Disk) (request : Request) :
    (disk.carryOut request).faults = disk.faults := by
  cases request with
  | read number => rfl
  | write number content => exact faults_store _ _ _
  | sync => rfl

/-- A disk that has served requests holds what they wrote. -/
theorem serveAll_spec {disk served : Disk} {image : Image} {sectors : Nat}
    {requests : List Request} (hholds : disk.Holds image sectors)
    (h : disk.serveAll requests = .ok served) :
    served.Holds (image.putAll (writesOf requests)) sectors ∧ served.faults = disk.faults := by
  induction requests generalizing disk image with
  | nil =>
    obtain rfl := Except.ok.inj h
    exact ⟨hholds, rfl⟩
  | cons request rest ih =>
    rw [serveAll_cons, serve] at h
    split at h
    · contradiction
    · have hnext : (disk.carryOut request).Holds (image.putAll (writesOf [request])) sectors := by
        cases request with
        | read number => exact hholds.request
        | write number content => exact hholds.store content
        | sync => exact hholds
      obtain ⟨hserved, hfaults⟩ := ih hnext h
      refine ⟨?_, hfaults.trans (faults_carryOut disk request)⟩
      rwa [← List.singleton_append, writesOf_append, Image.putAll_append]

theorem written_store (disk : Disk) (number : Nat) (data : ByteArray) :
    (disk.store number data).written = disk.written.push number := by rw [store_eq]

/-- A disk that has served requests has logged their writes. -/
theorem written_serveAll {disk served : Disk} {requests : List Request}
    (h : disk.serveAll requests = .ok served) :
    served.written.toList = disk.written.toList ++ (writesOf requests).map Prod.fst := by
  induction requests generalizing disk with
  | nil =>
    obtain rfl := Except.ok.inj h
    exact (List.append_nil _).symm
  | cons request rest ih =>
    rw [serveAll_cons, serve] at h
    split at h
    · contradiction
    · have hrest := ih h
      cases request with
      | read number => exact hrest
      | write number content =>
        calc
          _ = (disk.store number content.bytes).written.toList ++ (writesOf rest).map Prod.fst :=
            hrest
          _ = disk.written.toList ++ [number] ++ (writesOf rest).map Prod.fst := by
            rw [written_store, Array.toList_push]
          _ = _ := List.append_assoc _ _ _
      | sync => exact hrest

/-- Writes to the sectors that a disk has do not lengthen its medium. -/
theorem size_serveAll {disk served : Disk} {image : Image} {sectors : Nat}
    {requests : List Request} (hholds : disk.Holds image sectors)
    (h : disk.serveAll requests = .ok served)
    (hwrites : ∀ write ∈ writesOf requests, write.1 < sectors) :
    served.medium.size = disk.medium.size := by
  induction requests generalizing disk image with
  | nil =>
    obtain rfl := Except.ok.inj h
    rfl
  | cons request rest ih =>
    rw [serveAll_cons, serve] at h
    split at h
    · contradiction
    · cases request with
      | read number => exact @ih disk.request image hholds.request h hwrites
      | write number content =>
        have hnumber : number < sectors := hwrites (number, content) List.mem_cons_self
        have hsize := hholds.le_size
        simp only [sectorSize] at hsize
        calc
          _ = (disk.store number content.bytes).medium.size :=
            ih (hholds.store content) h fun write hwrite ↦
              hwrites write (List.mem_cons_of_mem _ hwrite)
          _ = max disk.medium.size (number * sectorSize + sectorSize) :=
            size_medium_store disk number content
          _ = disk.medium.size := by
            simp only [sectorSize]
            omega
      | sync => exact ih hholds h hwrites

/-- A disk that refuses nothing serves everything. -/
theorem exists_serveAll_of_faultless {disk : Disk} (h : disk.faults = .none)
    (requests : List Request) : ∃ served, disk.serveAll requests = .ok served := by
  induction requests generalizing disk with
  | nil => exact ⟨disk, rfl⟩
  | cons request rest ih =>
    have haccepts : disk.refuses request = false := by
      cases request <;> rw [refuses, h] <;> rfl
    rw [serveAll_cons, serve, haccepts]
    exact ih ((faults_carryOut disk request).trans h)

/-- The faults of a disk that accepts a limited number of writes and refuses nothing else. -/
def budget (limit : Nat) : Faults := .listed [] [] (some limit) false

/-- With enough of the budget left, everything is served. -/
theorem exists_serveAll_of_le_budget {disk : Disk} {limit : Nat} (hfaults : disk.faults = budget limit)
    {requests : List Request} (h : disk.traffic.writes + (writesOf requests).length ≤ limit) :
    ∃ served, disk.serveAll requests = .ok served := by
  induction requests generalizing disk with
  | nil => exact ⟨disk, rfl⟩
  | cons request rest ih =>
    cases request with
    | read number =>
      have haccepts : disk.refuses (.read number) = false := by
        rw [refuses, hfaults]
        rfl
      rw [serveAll_cons, serve, haccepts]
      exact @ih disk.request hfaults h
    | sync =>
      have haccepts : disk.refuses .sync = false := by
        rw [refuses, hfaults]
        rfl
      rw [serveAll_cons, serve, haccepts]
      exact ih hfaults h
    | write number content =>
      have hlength : disk.traffic.writes + ((writesOf rest).length + 1) ≤ limit := h
      have haccepts : disk.refuses (.write number content) = false := by
        rw [refuses, hfaults]
        exact decide_eq_false (by omega)
      have hcount := disk.writes_store number content.bytes
      rw [serveAll_cons, serve, haccepts]
      exact @ih (disk.store number content.bytes) ((faults_store _ _ _).trans hfaults) (by omega)

/-- With too little of the budget left, the requests stop after the writes it pays for. -/
theorem serveAll_of_budget_lt {disk : Disk} {image : Image} {sectors limit : Nat}
    (hholds : disk.Holds image sectors) (hfaults : disk.faults = budget limit)
    (hbefore : disk.traffic.writes ≤ limit) {requests : List Request}
    (h : limit < disk.traffic.writes + (writesOf requests).length) :
    ∃ stopped, disk.serveAll requests = .error stopped ∧
      stopped.Holds (image.putAll ((writesOf requests).take (limit - disk.traffic.writes)))
        sectors := by
  induction requests generalizing disk image with
  | nil =>
    have hlength : limit < disk.traffic.writes := h
    omega
  | cons request rest ih =>
    cases request with
    | read number =>
      have haccepts : disk.refuses (.read number) = false := by
        rw [refuses, hfaults]
        rfl
      rw [serveAll_cons, serve, haccepts]
      exact @ih disk.request image hholds.request hfaults hbefore h
    | sync =>
      have haccepts : disk.refuses .sync = false := by
        rw [refuses, hfaults]
        rfl
      rw [serveAll_cons, serve, haccepts]
      exact ih hholds hfaults hbefore h
    | write number content =>
      by_cases hspent : limit ≤ disk.traffic.writes
      · have hrefuses : disk.refuses (.write number content) = true := by
          rw [refuses, hfaults]
          exact decide_eq_true hspent
        rw [serveAll_cons, serve, hrefuses, Nat.sub_eq_zero_of_le hspent]
        exact ⟨disk.request, rfl, hholds.request⟩
      · have haccepts : disk.refuses (.write number content) = false := by
          rw [refuses, hfaults]
          exact decide_eq_false hspent
        have hlength : limit < disk.traffic.writes + ((writesOf rest).length + 1) := h
        have hcount := disk.writes_store number content.bytes
        obtain ⟨stopped, hstop, hstopped⟩ := @ih (disk.store number content.bytes) _
          (hholds.store content) ((faults_store _ _ _).trans hfaults) (by omega) (by omega)
        rw [serveAll_cons, serve, haccepts]
        refine ⟨stopped, hstop, ?_⟩
        rw [hcount] at hstopped
        rw [show limit - disk.traffic.writes = limit - (disk.traffic.writes + 1) + 1 by omega]
        exact hstopped

end Disk

/-! ## What an operation performs -/

section Sequencing

variable {ε σ α β : Type} {action : EStateM ε σ α} {next : α → EStateM ε σ β} {start final : σ}

/-- What follows an action that was carried out goes on where it ended. -/
theorem bind_of_ok {value : α} (h : action start = .ok value final) :
    (action >>= next) start = next value final := by
  show EStateM.bind action next start = _
  rw [EStateM.bind, h]

/-- What follows an action that has failed is not reached. -/
theorem bind_of_error {cause : ε} (h : action start = .error cause final) :
    (action >>= next) start = .error cause final := by
  show EStateM.bind action next start = _
  rw [EStateM.bind, h]

end Sequencing

/-- The end of an operation that has reached the given drive. -/
def conclude {α : Type} (outcome : Except Stop α) (drive : Drive) : EStateM.Result Stop Drive α :=
  match outcome with
  | .ok value => .ok value drive
  | .error stop => .error stop drive

/-- On a disk with the given content, the operation asks for the requests one after the other, and
ends as stated unless one of them is refused. -/
def Asks {α : Type} (action : Action α) (image : Image) (sectors : Nat) (outcome : Except Stop α)
    (requests : List Request) : Prop :=
  ∀ drive : Drive, drive.disk.Holds image sectors →
    ∃ journal, action drive =
      match drive.disk.serveAll requests with
      | .ok disk => conclude outcome ⟨disk, journal⟩
      | .error disk => .error (.error (.device .injected)) ⟨disk, journal⟩

theorem Asks.writeSector {image : Image} {sectors number : Nat} (content : Sector)
    (hnumber : number < sectors) (hword : number < 2 ^ 57) :
    Asks (Drive.writeSector number content) image sectors (.ok ()) [.write number content] := by
  intro drive hdrive
  refine ⟨drive.journal, ?_⟩
  have hcount := hdrive.sectorCount_eq
  have hover : ¬ Checked.wordLimit ≤ number * sectorSize := by
    simp only [Checked.wordLimit, sectorSize]
    omega
  rw [Drive.writeSector, Drive.writeBytes, Disk.writeRefusal?, Disk.serveAll_cons, Disk.serve,
    Disk.refuses]
  by_cases hrefused : drive.disk.faults.refusesWrite drive.disk.traffic number = true
  · simp only [if_pos hrefused]
    rfl
  · simp only [if_neg hrefused, if_neg (by omega : ¬ drive.disk.sectorCount ≤ number),
      if_neg hover]
    rfl

theorem Asks.bind {α β : Type} {action : Action α} {next : α → Action β} {image : Image}
    {sectors : Nat} {value : α} {outcome : Except Stop β} {leading trailing : List Request}
    (haction : Asks action image sectors (.ok value) leading)
    (hnext : Asks (next value) (image.putAll (writesOf leading)) sectors outcome trailing) :
    Asks (action >>= next) image sectors outcome (leading ++ trailing) := by
  intro drive hdrive
  obtain ⟨journal, hrun⟩ := haction drive hdrive
  rw [Disk.serveAll_append]
  cases hserve : drive.disk.serveAll leading with
  | error disk =>
    rw [hserve] at hrun
    exact ⟨journal, bind_of_error hrun⟩
  | ok disk =>
    rw [hserve] at hrun
    obtain ⟨final, hfinal⟩ := hnext ⟨disk, journal⟩ (Disk.serveAll_spec hdrive hserve).1
    exact ⟨final, (bind_of_ok hrun).trans hfinal⟩

/-- On a disk with the given content, the operation asks for some fixed requests that include the
given writes, and ends as stated unless one of them is refused. -/
def Performs {α : Type} (action : Action α) (image : Image) (sectors : Nat)
    (outcome : Except Stop α) (writes : List Write) : Prop :=
  ∃ requests, writesOf requests = writes ∧ ∀ drive : Drive, drive.disk.Holds image sectors →
    ∃ journal, action drive =
      match drive.disk.serveAll requests with
      | .ok disk => conclude outcome ⟨disk, journal⟩
      | .error disk => .error (.error (.device .injected)) ⟨disk, journal⟩

namespace Performs

variable {α β : Type} {image : Image} {sectors : Nat}

/-! ### Single steps -/

theorem pure (value : α) : Performs (Pure.pure value) image sectors (.ok value) [] :=
  ⟨[], rfl, fun drive _ ↦ ⟨drive.journal, rfl⟩⟩

theorem fail (cause : Error) :
    Performs (SectorFS.fail cause : Action α) image sectors (.error (.error cause)) [] :=
  ⟨[], rfl, fun drive _ ↦ ⟨drive.journal, rfl⟩⟩

theorem trap (cause : Trap) :
    Performs (SectorFS.trap cause : Action α) image sectors (.error (.trap cause)) [] :=
  ⟨[], rfl, fun drive _ ↦ ⟨drive.journal, rfl⟩⟩

theorem note (severity : Severity) (text : String) :
    Performs (Drive.note severity text) image sectors (.ok ()) [] :=
  ⟨[], rfl, fun drive _ ↦ ⟨drive.journal.push ⟨severity, text⟩, rfl⟩⟩

theorem sectorCount : Performs Drive.sectorCount image sectors (.ok sectors) [] := by
  refine ⟨[], rfl, fun drive hdrive ↦ ⟨drive.journal, ?_⟩⟩
  rw [Drive.sectorCount, hdrive.sectorCount_eq]
  rfl

theorem readSector {number : Nat} (hnumber : number < sectors) (hword : number < 2 ^ 57) :
    Performs (Drive.readSector number) image sectors (.ok (image number)) [] := by
  refine ⟨[.read number], rfl, fun drive hdrive ↦ ⟨drive.journal, ?_⟩⟩
  have hcount := hdrive.sectorCount_eq
  have hsize := hdrive.le_size
  have hover : ¬ Checked.wordLimit ≤ number * sectorSize := by
    simp only [Checked.wordLimit, sectorSize]
    omega
  have hshort : ¬ drive.disk.medium.size < number * sectorSize + sectorSize := by
    simp only [sectorSize] at hsize ⊢
    omega
  rw [Drive.readSector, Drive.readSectorInto, Disk.readRefusal?, Disk.serveAll_cons, Disk.serve,
    Disk.refuses]
  by_cases hrefused : drive.disk.faults.refusesRead drive.disk.traffic number = true
  · simp only [if_pos hrefused]
    rfl
  · simp only [if_neg hrefused, if_neg (by omega : ¬ drive.disk.sectorCount ≤ number),
      if_neg hover, if_neg hshort]
    show EStateM.Result.ok (drive.disk.sector number) _ = _
    rw [hdrive.sector_eq]
    rfl

theorem writeSector {number : Nat} (content : Sector) (hnumber : number < sectors)
    (hword : number < 2 ^ 57) :
    Performs (Drive.writeSector number content) image sectors (.ok ()) [(number, content)] :=
  ⟨[.write number content], rfl, Asks.writeSector content hnumber hword⟩

theorem sync : Performs Drive.sync image sectors (.ok ()) [] := by
  refine ⟨[.sync], rfl, fun drive _ ↦ ⟨drive.journal, ?_⟩⟩
  rw [Drive.sync, Disk.serveAll_cons, Disk.serve, Disk.refuses]
  split <;> rfl

/-! ### Sequences -/

theorem bind {action : Action α} {next : α → Action β} {value : α} {outcome : Except Stop β}
    {first rest : List Write} (haction : Performs action image sectors (.ok value) first)
    (hnext : Performs (next value) (image.putAll first) sectors outcome rest) :
    Performs (action >>= next) image sectors outcome (first ++ rest) := by
  obtain ⟨leading, rfl, haction⟩ := haction
  obtain ⟨trailing, rfl, hnext⟩ := hnext
  exact ⟨leading ++ trailing, writesOf_append _ _, Asks.bind haction hnext⟩

/-- A step that writes nothing. -/
theorem step {action : Action α} {next : α → Action β} {value : α} {outcome : Except Stop β}
    {writes : List Write} (haction : Performs action image sectors (.ok value) [])
    (hnext : Performs (next value) image sectors outcome writes) :
    Performs (action >>= next) image sectors outcome writes :=
  bind haction hnext

/-- What follows a step that stops is not reached. -/
theorem stop {action : Action α} {next : α → Action β} {cause : Stop} {writes : List Write}
    (haction : Performs action image sectors (.error cause) writes) :
    Performs (action >>= next) image sectors (.error cause) writes := by
  obtain ⟨requests, rfl, haction⟩ := haction
  refine ⟨requests, rfl, fun drive hdrive ↦ ?_⟩
  obtain ⟨journal, hrun⟩ := haction drive hdrive
  cases hserve : drive.disk.serveAll requests with
  | error disk =>
    rw [hserve] at hrun
    exact ⟨journal, bind_of_error hrun⟩
  | ok disk =>
    rw [hserve] at hrun
    exact ⟨journal, bind_of_error hrun⟩

/-- A step whose value is returned with a change. -/
theorem map {action : Action α} {value : α} {writes : List Write} (change : α → β)
    (haction : Performs action image sectors (.ok value) writes) :
    Performs (do return change (← action)) image sectors (.ok (change value)) writes := by
  rw [← List.append_nil writes]
  exact haction.bind (pure (change value))

/-! ### Runs -/

/-- A disk that refuses nothing serves all that the operation asks for. -/
theorem exists_served {action : Action α} {outcome : Except Stop α} {writes : List Write}
    (h : Performs action image sectors outcome writes) {drive : Drive}
    (hdrive : drive.disk.Holds image sectors) (hfaults : drive.disk.faults = .none) :
    ∃ requests disk journal, writesOf requests = writes ∧
      drive.disk.serveAll requests = .ok disk ∧ action drive = conclude outcome ⟨disk, journal⟩ ∧
      disk.Holds (image.putAll writes) sectors ∧ disk.faults = .none := by
  obtain ⟨requests, rfl, h⟩ := h
  obtain ⟨journal, hrun⟩ := h drive hdrive
  obtain ⟨disk, hserve⟩ := Disk.exists_serveAll_of_faultless hfaults requests
  obtain ⟨hholds, hsame⟩ := Disk.serveAll_spec hdrive hserve
  rw [hserve] at hrun
  exact ⟨requests, disk, journal, rfl, hserve, hrun, hholds, hsame.trans hfaults⟩

/-- A run on a disk that refuses nothing. -/
theorem run {action : Action α} {outcome : Except Stop α} {writes : List Write}
    (h : Performs action image sectors outcome writes) {drive : Drive}
    (hdrive : drive.disk.Holds image sectors) (hfaults : drive.disk.faults = .none) :
    ∃ final : Drive, action drive = conclude outcome final ∧
      final.disk.Holds (image.putAll writes) sectors ∧ final.disk.faults = .none := by
  obtain ⟨_, disk, journal, -, -, hrun, hend⟩ := h.exists_served hdrive hfaults
  exact ⟨⟨disk, journal⟩, hrun, hend⟩

/-- A run on a disk that refuses nothing, with what it leaves in the log. -/
theorem logged {action : Action α} {outcome : Except Stop α} {writes : List Write}
    (h : Performs action image sectors outcome writes) {drive : Drive}
    (hdrive : drive.disk.Holds image sectors) (hfaults : drive.disk.faults = .none)
    (hwrites : ∀ write ∈ writes, write.1 < sectors) :
    ∃ final : Drive, action drive = conclude outcome final ∧
      final.disk.Holds (image.putAll writes) sectors ∧
      final.disk.written.toList = drive.disk.written.toList ++ writes.map Prod.fst ∧
      final.disk.medium.size = drive.disk.medium.size := by
  obtain ⟨_, disk, journal, rfl, hserve, hrun, hholds, -⟩ := h.exists_served hdrive hfaults
  exact ⟨⟨disk, journal⟩, hrun, hholds, Disk.written_serveAll hserve,
    Disk.size_serveAll hdrive hserve hwrites⟩

/-- A run on a disk that refuses nothing, which it goes on to do, on a medium of the same size. -/
theorem completed {action : Action α} {outcome : Except Stop α} {writes : List Write}
    (h : Performs action image sectors outcome writes) {drive : Drive}
    (hdrive : drive.disk.Holds image sectors) (hfaults : drive.disk.faults = .none)
    (hwrites : ∀ write ∈ writes, write.1 < sectors) :
    ∃ final : Drive, action drive = conclude outcome final ∧
      final.disk.Holds (image.putAll writes) sectors ∧ final.disk.faults = .none ∧
      final.disk.medium.size = drive.disk.medium.size := by
  obtain ⟨_, disk, journal, rfl, hserve, hrun, hholds, hnone⟩ := h.exists_served hdrive hfaults
  exact ⟨⟨disk, journal⟩, hrun, hholds, hnone, Disk.size_serveAll hdrive hserve hwrites⟩

/-- A run on a disk that accepts fewer writes than the operation asks for. -/
theorem cut {action : Action α} {outcome : Except Stop α} {writes : List Write}
    (h : Performs action image sectors outcome writes) {drive : Drive} {limit : Nat}
    (hdrive : drive.disk.Holds image sectors) (hfaults : drive.disk.faults = Disk.budget limit)
    (htraffic : drive.disk.traffic.writes = 0) (hlimit : limit < writes.length) :
    ∃ final : Drive, action drive = .error (.error (.device .injected)) final ∧
      final.disk.Holds (image.putAll (writes.take limit)) sectors := by
  obtain ⟨requests, rfl, h⟩ := h
  obtain ⟨journal, hrun⟩ := h drive hdrive
  obtain ⟨disk, hserve, hholds⟩ := Disk.serveAll_of_budget_lt hdrive hfaults (by omega)
    (by omega : limit < drive.disk.traffic.writes + (writesOf requests).length)
  rw [hserve] at hrun
  rw [htraffic] at hholds
  exact ⟨⟨disk, journal⟩, hrun, hholds⟩

/-- A run on a disk that accepts all the writes that the operation asks for. -/
theorem spared {action : Action α} {outcome : Except Stop α} {writes : List Write}
    (h : Performs action image sectors outcome writes) {drive : Drive} {limit : Nat}
    (hdrive : drive.disk.Holds image sectors) (hfaults : drive.disk.faults = Disk.budget limit)
    (htraffic : drive.disk.traffic.writes = 0) (hlimit : writes.length ≤ limit) :
    ∃ final : Drive, action drive = conclude outcome final ∧
      final.disk.Holds (image.putAll writes) sectors := by
  obtain ⟨requests, rfl, h⟩ := h
  obtain ⟨journal, hrun⟩ := h drive hdrive
  obtain ⟨disk, hserve⟩ := @Disk.exists_serveAll_of_le_budget drive.disk limit hfaults requests
    (by omega)
  rw [hserve] at hrun
  exact ⟨⟨disk, journal⟩, hrun, (Disk.serveAll_spec hdrive hserve).1⟩

end Performs

end SectorFS
