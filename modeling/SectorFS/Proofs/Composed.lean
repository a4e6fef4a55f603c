import SectorFS.Proofs.InPlace
import SectorFS.Proofs.Removal.Release

/-!
# Operations put together from requests

Whatever an operation does, it does by asking a drive to read, to write or to wait, by noting
something in the journal, and by going on with the answer. So what holds of these requests and
of sequences of them holds of every operation, on every drive, well-formed or not: `Composed` is
the set of actions made from them, with writes only where these are allowed, and every operation
is shown to be in it once.

An operation that works on a value in memory is in it on every value, with the value handed on.
-/

namespace SectorFS

/-- The action is put together from requests to a drive, with writes among them only if `writes`
holds. -/
inductive Composed (writes : Prop) : {α : Type} → Action α → Prop
  | pure {α : Type} (value : α) : Composed writes (Pure.pure value)
  | throw {α : Type} (stop : Stop) : Composed writes (MonadExcept.throw stop : Action α)
  | note (severity : Severity) (text : String) : Composed writes (Drive.note severity text)
  | sectorCount : Composed writes Drive.sectorCount
  | readSector (number : Nat) : Composed writes (Drive.readSector number)
  | writeSector (allowed : writes) (number : Nat) (content : Sector) :
      Composed writes (Drive.writeSector number content)
  | sync : Composed writes Drive.sync
  | bind {α β : Type} {action : Action α} {next : α → Action β} (haction : Composed writes action)
      (hnext : ∀ value, Composed writes (next value)) : Composed writes (action >>= next)

/-- The operation is put together from requests, on every value. -/
def InPlace.Composed {σ α : Type} (writes : Prop) (operation : InPlace σ α) : Prop :=
  ∀ value, SectorFS.Composed writes (operation.using value)

namespace Composed

variable {α β : Type} {writes : Prop}

/-! ## Rules -/

theorem fail (cause : Error) : Composed writes (SectorFS.fail cause : Action α) :=
  throw (.error cause)

theorem trap (cause : Trap) : Composed writes (SectorFS.trap cause : Action α) :=
  throw (.trap cause)

theorem liftTrap (result : Except Trap α) : Composed writes (liftM result : Action α) := by
  cases result with
  | ok value => exact pure value
  | error cause => exact trap cause

theorem listMapM {step : α → Action β} (hstep : ∀ item, Composed writes (step item)) (items : List α) :
    Composed writes (items.mapM step) := by
  induction items with
  | nil => exact pure []
  | cons item rest ih =>
    rw [List.mapM_cons]
    exact (hstep item).bind fun _ ↦ ih.bind fun _ ↦ pure _

theorem listFoldlM {step : β → α → Action β} (hstep : ∀ built item, Composed writes (step built item))
    (items : List α) (start : β) : Composed writes (items.foldlM step start) := by
  induction items generalizing start with
  | nil => exact pure start
  | cons item rest ih =>
    rw [List.foldlM_cons]
    exact (hstep start item).bind fun next ↦ ih next

theorem listForM {step : α → Action Unit} (hstep : ∀ item, Composed writes (step item))
    (items : List α) : Composed writes (items.forM step) := by
  induction items with
  | nil => exact pure ()
  | cons item rest ih => exact (hstep item).bind fun _ ↦ ih

/-! ## Reading -/

/-! ### Files -/

theorem nodeFetch (number : Nat) : Composed writes (Node.fetch number) := by
  refine (readSector number).bind fun sector ↦ ?_
  split
  · exact pure _
  · exact fail _

theorem locateWithin (fuel : Nat) (node : Node) (offset : Nat) :
    Composed writes (node.locateWithin fuel offset) := by
  induction fuel generalizing node offset with
  | zero => exact trap .runaway
  | succ fuel ih =>
    rw [Node.locateWithin]
    split
    · exact fail _
    · refine (liftTrap _).bind fun span ↦ ?_
      split
      · exact trap _
      · split
        · exact pure _
        · exact (nodeFetch _).bind fun child ↦ ih child _

theorem locate (node : Node) (offset : Nat) : Composed writes (node.locate offset) :=
  sectorCount.bind fun _ ↦ locateWithin _ node offset

theorem handleFetch (sector : Nat) : Composed writes (Handle.fetch sector) :=
  (nodeFetch sector).bind fun _ ↦ pure _

theorem readChunk (handle : Handle) (chunk : Chunk) : Composed writes (handle.readChunk chunk) :=
  (locate handle.node chunk.start).bind fun sector ↦ (readSector sector).bind fun _ ↦ pure _

theorem readAt (handle : Handle) (position count : Nat) : Composed writes (handle.readAt position count) := by
  rw [Handle.readAt]
  exact listFoldlM (fun _ chunk ↦ (readChunk handle chunk).bind fun _ ↦ pure _) _ _

/-! ### Directories -/

theorem ofFile (file : Handle) : Composed writes (Directory.ofFile file) :=
  (readAt file 0 _).bind fun _ ↦ pure _

theorem load (sector : Nat) : Composed writes (Directory.load sector) :=
  (handleFetch sector).bind fun file ↦ ofFile file

theorem follow (directory : Directory) (name : String) (rest : List String) :
    Composed writes (directory.follow name rest) := by
  induction rest generalizing directory name with
  | nil =>
    rw [Directory.follow]
    split
    · exact fail _
    · exact pure _
  | cons next rest ih =>
    rw [Directory.follow]
    cases directory.entry? name with
    | none => exact fail _
    | some entry =>
      dsimp only
      split
      · exact (load _).bind fun nested ↦ ih nested next
      · exact fail _

theorem pathResolve (path : Path) (root : Directory) (rootAt : Nat) :
    Composed writes (path.resolve root rootAt) := by
  rw [Path.resolve]
  split
  · exact pure _
  · refine Composed.bind ?_ fun target ↦ (note _ _).bind fun _ ↦ pure target
    rw [Directory.followFrom]
    split
    · exact fail _
    · exact follow root _ _

theorem treeWithin (fuel : Nat) (directory : Directory) (depth : Nat) :
    Composed writes (Directory.treeWithin fuel directory depth) := by
  induction fuel generalizing directory depth with
  | zero => exact trap .runaway
  | succ fuel ih =>
    rw [Directory.treeWithin]
    refine (listMapM (fun entry ↦ ?_) _).bind fun _ ↦ pure _
    split
    · exact (load _).bind fun nested ↦ (liftTrap _).bind fun below ↦ (ih nested below).bind
        fun _ ↦ pure _
    · exact pure _

/-! ### Volumes -/

theorem parsePath (text : String) : Composed writes (Volume.parsePath text) := by
  rw [Volume.parsePath]
  split
  · exact pure _
  · exact fail _

theorem mapLoad (sectors : Nat) (file : Handle) : Composed writes (FreeMap.load sectors file) := by
  rw [FreeMap.load_eq]
  exact (liftTrap _).bind fun _ ↦ (readAt file 0 _).bind fun _ ↦ pure _

theorem loadMap (volume : Volume) : Composed writes volume.loadMap :=
  sectorCount.bind fun sectors ↦ (liftTrap _).bind fun _ ↦ mapLoad sectors volume.mapFile

theorem resolve (volume : Volume) (text : String) : Composed writes (volume.resolve text) :=
  (parsePath text).bind fun path ↦ (ofFile volume.rootFile).bind fun root ↦
    pathResolve path root rootSector

theorem list (volume : Volume) (text : String) (recursive : Bool) :
    Composed writes (volume.list text recursive) := by
  refine (resolve volume text).bind fun target ↦ ?_
  split
  · have hshown (listing : List Listed) : Composed writes (do
        Drive.note .debug ("Listing of " ++ text ++ ":\n" ++ (← Listed.render listing recursive))
        return listing) :=
      (liftTrap _).bind fun _ ↦ (note _ _).bind fun _ ↦ pure listing
    refine (load target.sector).bind fun directory ↦ ?_
    cases recursive with
    | true => exact (sectorCount.bind fun _ ↦ treeWithin _ directory 0).bind hshown
    | false => exact (pure directory.list).bind hshown
  · exact fail _

theorem openHandle (volume : Volume) (text : String) : Composed writes (volume.openHandle text) :=
  (note _ _).bind fun _ ↦ (resolve volume text).bind fun target ↦ handleFetch target.sector

theorem freeSectors (volume : Volume) : Composed writes volume.freeSectors :=
  (loadMap volume).bind fun _ ↦ liftTrap _

theorem report (volume : Volume) : Composed writes volume.report :=
  (loadMap volume).bind fun _ ↦ (ofFile volume.rootFile).bind fun _ ↦ (liftTrap _).bind fun _ ↦
    (liftTrap _).bind fun _ ↦ (liftTrap _).bind fun _ ↦ (listMapM (fun _ ↦ (nodeFetch _).bind
      fun _ ↦ (liftTrap _).bind fun _ ↦ pure _) _).bind fun _ ↦ pure _

theorem mount : Composed writes Volume.mount :=
  (note _ _).bind fun _ ↦ (handleFetch freeMapSector).bind fun _ ↦
    (handleFetch rootSector).bind fun _ ↦ pure _

/-! ## Writing -/

section Writing

variable (allowed : writes)

include allowed

theorem nodeStore (node : Node) (number : Nat) : Composed writes (node.store number) :=
  writeSector allowed number _

theorem writeChunk (handle : Handle) (chunk : Chunk) (data : ByteArray) (origin : Nat) :
    Composed writes (handle.writeChunk chunk data origin) := by
  refine (locate handle.node chunk.start).bind fun sector ↦ ?_
  split
  · exact (pure _).bind fun _ ↦ writeSector allowed sector _
  · exact (readSector sector).bind fun _ ↦ writeSector allowed sector _

theorem writeAt (handle : Handle) (position : Nat) (data : ByteArray) :
    Composed writes (handle.writeAt position data) :=
  (listForM (fun chunk ↦ writeChunk allowed handle chunk data _) _).bind fun _ ↦ pure _

theorem directoryStore (directory : Directory) (file : Handle) :
    Composed writes (directory.store file) :=
  (writeAt allowed file 0 _).bind fun _ ↦ pure _

theorem mapStore (map : FreeMap) (file : Handle) : Composed writes (map.store file) :=
  (liftTrap _).bind fun _ ↦ (writeAt allowed file 0 _).bind fun _ ↦ pure _

end Writing

end Composed

/-! ## Operations on a value in memory -/

namespace InPlace.Composed

variable {σ α β : Type} {writes : Prop}

/-! ### Rules -/

theorem pure (result : α) : InPlace.Composed writes (Pure.pure result : InPlace σ α) :=
  fun value ↦ SectorFS.Composed.pure (result, value)

theorem throw (stop : Stop) :
    InPlace.Composed writes (MonadExcept.throw stop : InPlace σ α) :=
  fun _ ↦ SectorFS.Composed.throw stop

theorem fail (cause : Error) : InPlace.Composed writes (SectorFS.fail cause : InPlace σ α) :=
  throw (.error cause)

theorem trap (cause : Trap) : InPlace.Composed writes (SectorFS.trap cause : InPlace σ α) :=
  throw (.trap cause)

theorem current : InPlace.Composed writes (InPlace.current : InPlace σ σ) :=
  fun value ↦ SectorFS.Composed.pure (value, value)

theorem assign (changed : σ) : InPlace.Composed writes (InPlace.assign changed) :=
  fun _ ↦ SectorFS.Composed.pure ((), changed)

theorem lift {action : Action α} (haction : SectorFS.Composed writes action) :
    InPlace.Composed writes (liftM action : InPlace σ α) := fun value ↦ by
  rw [InPlace.using_lift]
  exact haction.bind fun result ↦ SectorFS.Composed.pure (result, value)

theorem bind {operation : InPlace σ α} {next : α → InPlace σ β}
    (hfirst : InPlace.Composed writes operation)
    (hnext : ∀ result, InPlace.Composed writes (next result)) :
    InPlace.Composed writes (operation >>= next) := fun value ↦ by
  rw [InPlace.using_bind]
  exact (hfirst value).bind fun reached ↦ hnext reached.1 reached.2

theorem liftTrap (result : Except Trap α) :
    InPlace.Composed writes (liftM result : InPlace σ α) := by
  cases result with
  | ok value => exact pure value
  | error cause => exact trap cause

theorem liftError (result : Except Error α) :
    InPlace.Composed writes (liftM result : InPlace σ α) := by
  cases result with
  | ok value => exact pure value
  | error cause => exact fail cause

theorem listMapM {step : α → InPlace σ β} (hstep : ∀ item, InPlace.Composed writes (step item))
    (items : List α) : InPlace.Composed writes (items.mapM step) := by
  induction items with
  | nil => exact pure []
  | cons item rest ih =>
    rw [List.mapM_cons]
    exact (hstep item).bind fun _ ↦ ih.bind fun _ ↦ pure _

theorem listForM {step : α → InPlace σ Unit}
    (hstep : ∀ item, InPlace.Composed writes (step item)) (items : List α) :
    InPlace.Composed writes (items.forM step) := by
  induction items with
  | nil => exact pure ()
  | cons item rest ih => exact (hstep item).bind fun _ ↦ ih

/-! ### Operations of a space -/

section Space

variable {allocation : Allocation α} {map reached : FreeMap}

/-- An allocation that looks at the map only and goes on. -/
theorem of_ok {value : α} (h : ∀ drive, allocation ⟨drive, map⟩ = .ok value ⟨drive, reached⟩) :
    SectorFS.Composed writes (allocation.using map) := by
  have hpure : allocation.using map = Pure.pure (value, reached) := by
    funext drive
    rw [InPlace.using, h]
    rfl
  rw [hpure]
  exact .pure _

/-- An allocation that looks at the map only and stops. -/
theorem of_error {stop : Stop} (h : ∀ drive, allocation ⟨drive, map⟩ = .error stop ⟨drive, reached⟩) :
    SectorFS.Composed writes (allocation.using map) := by
  have hthrow : allocation.using map = MonadExcept.throw stop := by
    funext drive
    rw [InPlace.using, h]
    rfl
  rw [hthrow]
  exact .throw stop

theorem freeCount : InPlace.Composed writes Space.freeCount := fun map ↦ by
  cases hcount : map.freeCount with
  | ok count => exact of_ok fun drive ↦ by rw [Space.freeCount, hcount]
  | error cause => exact of_error fun drive ↦ by rw [Space.freeCount, hcount]

theorem clear (sector : Nat) : InPlace.Composed writes (Space.clear sector) := fun map ↦ by
  cases hcovers : map.covers sector with
  | ok covered => exact of_ok fun drive ↦ by rw [Space.clear, hcovers]
  | error cause => exact of_error fun drive ↦ by rw [Space.clear, hcovers]

theorem claim : InPlace.Composed writes Space.claim := by
  have hclaim : InPlace.Composed writes Space.claim? := fun map ↦ by
    cases hfirst : map.firstFree with
    | none => exact of_ok fun drive ↦ by rw [Space.claim?, hfirst]
    | some sector => exact of_ok fun drive ↦ by rw [Space.claim?, hfirst]
  refine hclaim.bind fun found ↦ ?_
  split
  · exact pure _
  · exact fail _

end Space

/-! ### Trees -/

theorem build (allowed : writes) (height : Nat) (valid : height < maxLevel) (size : Nat) :
    InPlace.Composed writes (Node.build height valid size) := by
  induction height generalizing size with
  | zero =>
    rw [Node.build]
    refine (liftTrap _).bind fun charge ↦ (liftTrap _).bind fun used ↦ ?_
    split
    · exact trap _
    · exact (listMapM (fun index ↦ claim.bind fun sector ↦ pure sector) _).bind fun _ ↦ pure _
  | succ below ih =>
    rw [Node.build]
    refine (liftTrap _).bind fun charge ↦ (liftTrap _).bind fun used ↦ ?_
    split
    · exact trap _
    · refine (listMapM (fun index ↦ claim.bind fun sector ↦ ?_) _).bind fun _ ↦ pure _
      exact (liftTrap _).bind fun share ↦ (ih _ share).bind fun child ↦
        (lift (SectorFS.Composed.nodeStore allowed child sector)).bind fun _ ↦ pure _

theorem allocate (allowed : writes) (size : Nat) :
    InPlace.Composed writes (Node.allocate size) := by
  rw [Node.allocate]
  split
  · exact fail _
  · refine (liftTrap _).bind fun needs ↦ freeCount.bind fun free ↦ ?_
    split
    · exact (lift (.note _ _)).bind fun _ ↦ fail _
    · exact (lift (.note _ _)).bind fun _ ↦ build allowed _ _ size

theorem releaseWithin (fuel : Nat) (node : Node) (rightmost : Bool) :
    InPlace.Composed writes (node.releaseWithin fuel rightmost) := by
  induction fuel generalizing node rightmost with
  | zero => exact trap .runaway
  | succ fuel ih =>
    rw [Node.releaseWithin_succ]
    have hslot (count : Nat) (slot : Nat × Nat) :
        InPlace.Composed writes (node.releaseSlot fuel rightmost count slot) := by
      rw [Node.releaseSlot]
      split
      · exact (lift (.nodeFetch _)).bind fun child ↦ (ih child _).bind fun _ ↦ clear _
      · exact clear _
    split
    · exact (pure _).bind fun share ↦ (liftTrap _).bind fun sectors ↦ listForM (hslot _) _
    · exact (liftTrap _).bind fun share ↦ (liftTrap _).bind fun sectors ↦ listForM (hslot _) _

theorem release (node : Node) (rightmost : Bool) :
    InPlace.Composed writes (node.release rightmost) :=
  (lift .sectorCount).bind fun _ ↦ releaseWithin _ node rightmost

/-! ### Entries -/

theorem claimEntry (allowed : writes) (directory : Directory) (name : String) (size : Nat)
    (isDirectory : Bool) :
    InPlace.Composed writes (Volume.claimEntry directory name size isDirectory) :=
  claim.bind fun _ ↦ (liftError _).bind fun _ ↦ (allocate allowed size).bind fun _ ↦ pure _

theorem releaseFile (sector : Nat) : InPlace.Composed writes (Volume.releaseFile sector) :=
  (lift (.nodeFetch sector)).bind fun node ↦ (release node true).bind fun _ ↦ clear sector

theorem releaseEntriesWithin (fuel : Nat) (entries : List Entry) :
    InPlace.Composed writes (Directory.releaseEntriesWithin fuel entries) := by
  induction fuel generalizing entries with
  | zero => exact trap .runaway
  | succ fuel ih =>
    rw [Directory.releaseEntriesWithin_succ]
    refine listForM (fun entry ↦ ?_) entries
    split
    · exact (lift (.load _)).bind fun nested ↦ (ih nested.entries).bind fun _ ↦ releaseFile _
    · exact releaseFile _

theorem releaseEntry (entry : Entry) : InPlace.Composed writes (Directory.releaseEntry entry) :=
  (lift .sectorCount).bind fun _ ↦ releaseEntriesWithin _ [entry]

/-- What clears a table stops with what stopped it, so its entries are released one by one. -/
theorem releaseDirectory (sector : Nat) :
    InPlace.Composed writes (Volume.releaseDirectory sector) := by
  refine (lift (.load sector)).bind fun directory ↦ ?_
  show InPlace.Composed writes
    (directory.clear >>= Directory.settle (Volume.releaseFile sector))
  rw [Directory.clear_bind]
  exact (listForM releaseEntry _).bind fun _ ↦ releaseFile sector

end InPlace.Composed

/-! ## Creating and removing -/

namespace Composed

variable {writes : Prop} (allowed : writes)

theorem resolveParent (path : Path) (root : Directory) (rootAt : Nat) :
    Composed writes (path.resolveParent root rootAt) := by
  rw [Path.resolveParent]
  split
  · exact fail _
  · refine (pathResolve _ root rootAt).bind fun target ↦ ?_
    split
    · exact pure _
    · exact fail _

section Writing

include allowed

theorem createEntry (volume : Volume) (text : String) (size : Nat) (isDirectory : Bool) :
    Composed writes (volume.createEntry text size isDirectory) := by
  refine (parsePath text).bind fun path ↦ ?_
  split
  · exact fail _
  · refine (ofFile volume.rootFile).bind fun root ↦ (resolveParent path root rootSector).bind
      fun parentAt ↦ (handleFetch parentAt).bind fun parentFile ↦ (ofFile parentFile).bind
        fun parent ↦ ?_
    split
    · exact fail _
    · refine (loadMap volume).bind fun map ↦ (InPlace.Composed.claimEntry allowed parent _ size
        isDirectory map).bind fun claimed ↦ (nodeStore allowed _ _).bind fun _ ↦ ?_
      have hrest : Composed writes (do
          claimed.1.2.1.store parentFile
          claimed.2.store volume.mapFile
          Drive.note .info ("Created " ++ path.toText ++ " with header at sector " ++
            toString claimed.1.1)) :=
        (directoryStore allowed _ _).bind fun _ ↦ (mapStore allowed _ _).bind fun _ ↦ note _ _
      split
      · exact (handleFetch _).bind fun file ↦ (directoryStore allowed _ file).bind fun _ ↦ hrest
      · exact hrest

end Writing

end Composed

/-! ## Open files and removals -/

namespace InPlace.Composed

variable {writes : Prop}

theorem openFile (text : String) : InPlace.Composed writes (Volume.InPlace.openFile text) := by
  refine current.bind fun volume ↦ (lift (.openHandle volume text)).bind fun handle ↦ ?_
  split
  · exact fail _
  · exact (assign _).bind fun _ ↦ pure _

theorem onSlot {α : Type} {operation : InPlace Handle α} (h : InPlace.Composed writes operation)
    (index : Fin maxOpenFiles) (handle : Handle) :
    InPlace.Composed writes (Volume.onSlot index handle operation) := fun volume ↦ by
  rw [Volume.using_onSlot]
  exact (h handle).bind fun _ ↦ .pure _

theorem handleRead (count : Nat) : InPlace.Composed writes (Handle.InPlace.read count) :=
  current.bind fun handle ↦ (lift (.readAt handle _ count)).bind fun bytes ↦
    (liftTrap _).bind fun moved ↦ (assign moved).bind fun _ ↦ pure bytes

theorem read (id count : Nat) : InPlace.Composed writes (Volume.InPlace.read id count) :=
  current.bind fun _ ↦ (liftError _).bind fun found ↦ onSlot (handleRead count) found.1 found.2

theorem close (id : Nat) : InPlace.Composed writes (Volume.InPlace.close id) :=
  current.bind fun _ ↦ (liftError _).bind fun _ ↦ assign _

theorem closeDead (map : FreeMap) : InPlace.Composed writes (Volume.InPlace.closeDead map) := by
  refine listForM (fun index ↦ current.bind fun volume ↦ ?_) _
  split
  · exact pure ()
  · refine (liftTrap _).bind fun isDead ↦ ?_
    split
    · exact (lift (.note _ _)).bind fun _ ↦ assign _
    · exact pure ()

section Writing

variable (allowed : writes)

include allowed

theorem handleWrite (data : ByteArray) : InPlace.Composed writes (Handle.InPlace.write data) :=
  current.bind fun handle ↦ (lift (.writeAt allowed handle _ data)).bind fun count ↦
    (liftTrap _).bind fun moved ↦ (assign moved).bind fun _ ↦ pure count

theorem write (id : Nat) (data : ByteArray) :
    InPlace.Composed writes (Volume.InPlace.write id data) :=
  current.bind fun _ ↦ (liftError _).bind fun found ↦
    onSlot (handleWrite allowed data) found.1 found.2

theorem unlink (parentAt : Nat) (name : String) (map : FreeMap) :
    InPlace.Composed writes (Volume.InPlace.unlink parentAt name map) :=
  (lift (.handleFetch parentAt)).bind fun parentFile ↦ (lift (.ofFile parentFile)).bind fun _ ↦
    (liftError _).bind fun left ↦ (lift (.directoryStore allowed left parentFile)).bind fun _ ↦
      current.bind fun volume ↦ (lift (.mapStore allowed map volume.mapFile)).bind fun _ ↦
        closeDead map

theorem discard (path : Path) (name : String) (parentAt : Nat) (target : Target) :
    InPlace.Composed writes (Volume.InPlace.discard path name parentAt target) :=
  current.bind fun volume ↦ (lift (.loadMap volume)).bind fun map ↦ (lift (.note _ _)).bind fun _ ↦
    (lift (releaseFile target.sector map)).bind fun released ↦
      (unlink allowed parentAt name released.2).bind fun _ ↦ lift (.note _ _)

theorem remove (text : String) : InPlace.Composed writes (Volume.InPlace.remove text) := by
  refine (lift (.parsePath text)).bind fun path ↦ ?_
  split
  · exact fail _
  · refine current.bind fun volume ↦ (lift (.ofFile volume.rootFile)).bind fun root ↦
      (lift (.pathResolve path root rootSector)).bind fun target ↦
        (lift (.resolveParent path root rootSector)).bind fun parentAt ↦ ?_
    split
    · refine (lift (.load target.sector)).bind fun directory ↦ ?_
      split
      · exact (fail _).bind fun _ ↦ discard allowed _ _ _ _
      · exact discard allowed _ _ _ _
    · exact discard allowed _ _ _ _

theorem removeTree (text : String) : InPlace.Composed writes (Volume.InPlace.removeTree text) := by
  refine (lift (.parsePath text)).bind fun path ↦ ?_
  split
  · exact fail _
  · refine current.bind fun volume ↦ (lift (.ofFile volume.rootFile)).bind fun root ↦
      (lift (.pathResolve path root rootSector)).bind fun target ↦ ?_
    split
    · exact (lift (.resolveParent path root rootSector)).bind fun parentAt ↦
        (lift (.loadMap volume)).bind fun map ↦
          (lift (releaseDirectory target.sector map)).bind fun released ↦
            (unlink allowed parentAt _ released.2).bind fun _ ↦ lift (.note _ _)
    · exact remove allowed text

end Writing

end InPlace.Composed

end SectorFS
