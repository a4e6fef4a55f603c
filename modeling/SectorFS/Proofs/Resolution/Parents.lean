import SectorFS.Proofs.Quiet
import SectorFS.Proofs.Sessions.Removals

/-!
# A path and the path above it

A path can be followed in one walk, or the path above it can be resolved first and the last
component looked up in the directory that is there. On a disk that refuses nothing both give the
same target or the same failure (`Path.resolve_eq_resolveByParent`), so a name whose path was
resolved is there when it is taken out of its directory. Neither the tables nor the nodes on the
disk need to be well-formed, and the volume need not be sound.
-/

namespace SectorFS

variable {α β : Type} {drive other : Drive} {writes : Prop}

/-! ## Answers -/

/-- What an operation returns or is stopped by, whatever drive it reaches. -/
def Drive.answer (drive : Drive) (action : Action α) : Except Stop α :=
  match action drive with
  | .ok value _ => .ok value
  | .error stop _ => .error stop

namespace Drive

theorem answer_of_conclude {action : Action α} {outcome : Except Stop α} {final : Drive}
    (h : action drive = conclude outcome final) : drive.answer action = outcome := by
  rw [answer, h]
  cases outcome <;> rfl

theorem run_eq_conclude (drive : Drive) (action : Action α) :
    action drive = conclude (drive.answer action) (reached (action drive)) := by
  rw [answer]
  cases action drive <;> rfl

/-- Drives whose disks are alike and refuse nothing give the same answers. -/
theorem answer_congr {action : Action α} (h : Blind action) (hfaults : drive.disk.faults = .none)
    (halike : drive.disk.Alike other.disk) : other.answer action = drive.answer action := by
  obtain ⟨outcome, first, second, hfirst, hsecond, -, -⟩ := h drive other halike hfaults
  rw [answer_of_conclude hfirst, answer_of_conclude hsecond]

/-- An operation that only reads gives its answer later as well, while the disk is alike. -/
theorem exists_run {action : Action α} (h : Composed False action)
    (hfaults : drive.disk.faults = .none) (halike : drive.disk.Alike other.disk) :
    ∃ final : Drive, action other = conclude (drive.answer action) final ∧
      drive.disk.Alike final.disk := by
  refine ⟨reached (action other), ?_, halike.trans (h.quiet other)⟩
  rw [← answer_congr h.blind hfaults halike]
  exact other.run_eq_conclude action

/-- After an operation that only reads, the next one answers as it does right away. -/
theorem answer_bind {action : Action α} {next : α → Action β} (haction : Composed False action)
    (hnext : ∀ value, Composed True (next value)) (hfaults : drive.disk.faults = .none) :
    drive.answer (action >>= next) =
      drive.answer action >>= fun value ↦ drive.answer (next value) := by
  have halike := haction.quiet drive
  have hrun := drive.run_eq_conclude action
  show drive.answer (EStateM.bind action next) = _
  rw [answer, EStateM.bind]
  cases hanswer : drive.answer action with
  | error stop =>
    rw [hanswer] at hrun
    rw [hrun]
    rfl
  | ok value =>
    rw [hanswer] at hrun
    rw [hrun]
    exact answer_congr (hnext value).blind hfaults halike

theorem answer_of_bind_eq_ok {action : Action α} {next : α → Action β} {value : β}
    (haction : Composed False action) (hnext : ∀ value, Composed True (next value))
    (hfaults : drive.disk.faults = .none) (h : drive.answer (action >>= next) = .ok value) :
    ∃ found, drive.answer action = .ok found ∧ drive.answer (next found) = .ok value := by
  rw [answer_bind haction hnext hfaults] at h
  cases hfound : drive.answer action with
  | error stop =>
    rw [hfound] at h
    contradiction
  | ok found =>
    rw [hfound] at h
    exact ⟨found, rfl, h⟩

end Drive

/-! ## One walk, component by component -/

/-- The directory that a target is, if it is one. -/
def Target.enter (target : Target) : Action Directory :=
  if target.isDirectory then Directory.load target.sector else fail .notADirectory

namespace Directory

/-- Looks up a name. -/
def lookup (directory : Directory) (name : String) : Action Target :=
  match directory.entry? name with
  | none => fail .notFound
  | some entry => return ⟨entry.sector.toNat, entry.isDirectory⟩

theorem follow_nil (directory : Directory) (name : String) :
    directory.follow name [] = directory.lookup name := by
  cases hentry : directory.entry? name with
  | none => rw [follow, lookup, hentry]
  | some entry => rw [follow, lookup, hentry]

theorem follow_cons (directory : Directory) (name next : String) (rest : List String) :
    directory.follow name (next :: rest) = (do
      let nested ← (← directory.lookup name).enter
      nested.follow next rest) := by
  rw [follow, lookup]
  cases directory.entry? name with
  | none => rfl
  | some entry =>
    rw [pure_bind, Target.enter]
    dsimp only
    split <;> rfl

/-- Following a path fails because a name is absent, because a file is in the way, or because a
directory cannot be loaded. -/
theorem stop_of_follow (hfaults : drive.disk.faults = .none) {directory : Directory}
    {name : String} {rest : List String} {stop : Stop}
    (h : drive.answer (directory.follow name rest) = .error stop) :
    stop = .error .notFound ∨ stop = .error .notADirectory ∨
      ∃ sector, drive.answer (load sector) = .error stop := by
  induction rest generalizing directory name with
  | nil =>
    rw [follow] at h
    cases hentry : directory.entry? name with
    | none =>
      rw [hentry] at h
      exact .inl (Except.error.inj h).symm
    | some entry =>
      rw [hentry] at h
      contradiction
  | cons next rest ih =>
    rw [follow] at h
    cases hentry : directory.entry? name with
    | none =>
      rw [hentry] at h
      exact .inl (Except.error.inj h).symm
    | some entry =>
      rw [hentry] at h
      dsimp only at h
      split at h
      · rw [Drive.answer_bind (.load _) (fun nested ↦ .follow nested next rest) hfaults] at h
        cases hload : drive.answer (load entry.sector.toNat) with
        | error cause =>
          rw [hload] at h
          obtain rfl := Except.error.inj h
          exact .inr (.inr ⟨_, hload⟩)
        | ok nested =>
          rw [hload] at h
          exact ih h
      · exact .inr (.inl (Except.error.inj h).symm)

/-- The last component is looked up in the directory that the others lead to. -/
theorem follow_concat (directory : Directory) (name : String) (rest : List String)
    (last : String) :
    directory.follow name (rest ++ [last]) = (do
      let nested ← (← directory.follow name rest).enter
      nested.lookup last) := by
  induction rest generalizing directory name with
  | nil =>
    rw [List.nil_append, follow_cons, follow_nil]
    simp only [follow_nil]
  | cons next rest ih =>
    rw [List.cons_append, follow_cons, follow_cons]
    simp only [ih, bind_assoc]

end Directory

namespace Composed

theorem lookup (directory : Directory) (name : String) :
    Composed writes (directory.lookup name) := by
  rw [← directory.follow_nil]
  exact follow directory name []

theorem enter (target : Target) : Composed writes target.enter := by
  rw [Target.enter]
  split
  · exact load _
  · exact fail _

theorem enterLookup (target : Target) (name : String) :
    Composed writes (target.enter >>= (·.lookup name)) :=
  (enter target).bind fun nested ↦ lookup nested name

end Composed

/-! ## Both ways -/

namespace Path

variable {path : Path} {name : String} {root : Directory} {rootAt : Nat}

/-- Resolves the path above a path and looks up the last component in the directory there. -/
def resolveByParent (path : Path) (name : String) (root : Directory) (rootAt : Nat) :
    Action Target := do
  let parentAt ← path.resolveParent root rootAt
  let parent ← Directory.load parentAt
  parent.lookup name

theorem exists_lastName? (h : 1 ≤ path.depth) : ∃ name, path.lastName? = some name := by
  exact ⟨_, List.getLast?_eq_some_getLast (List.ne_nil_of_length_pos h)⟩

theorem resolveByParent_eq (h : path.lastName? = some name) :
    path.resolveByParent name root rootAt = (do
      let target ← resolve ⟨path.components.dropLast⟩ root rootAt
      target.enter >>= (·.lookup name)) := by
  have hparent : path.parent? = some ⟨path.components.dropLast⟩ := by
    rw [parent?, isRoot, eq_concat_of_lastName? h, if_neg (by simp)]
  rw [resolveByParent, resolveParent, hparent]
  simp only [bind_assoc]
  congr 1
  funext target
  rw [Target.enter]
  split <;> rfl

/-- What resolving adds to following the components is a line in the journal. -/
theorem answer_resolve {first : String} {rest : List String}
    (h : path.components = first :: rest) (hfaults : drive.disk.faults = .none) :
    drive.answer (path.resolve root rootAt) = drive.answer (root.follow first rest) := by
  have hnoted (target : Target) : Composed True (do
      Drive.note .debug ("resolved " ++ path.toText ++ " to sector " ++ toString target.sector)
      return target) := (Composed.note _ _).bind fun _ ↦ .pure target
  rw [resolve, if_neg (by simp [isRoot, h]), Directory.followFrom, h, List.drop_zero]
  show drive.answer (root.follow first rest >>= _) = _
  rw [Drive.answer_bind (.follow root first rest) hnoted hfaults]
  exact bind_pure _

theorem answer_followFrom (h : path.lastName? = some name) (hfaults : drive.disk.faults = .none) :
    drive.answer (root.followFrom path 0) = drive.answer (path.resolve root rootAt) := by
  obtain ⟨first, rest, hnames⟩ := List.exists_cons_of_ne_nil
    (show path.components ≠ [] by rw [eq_concat_of_lastName? h]; simp)
  rw [answer_resolve hnames hfaults, Directory.followFrom, hnames, List.drop_zero]

/-- One walk from the root directory answers as the way over the path above. -/
theorem answer_resolveByParent (hfaults : drive.disk.faults = .none)
    (hroot : drive.answer (Directory.load rootAt) = .ok root) (h : path.lastName? = some name) :
    drive.answer (path.resolveByParent name root rootAt) =
      drive.answer (path.resolve root rootAt) := by
  rw [resolveByParent_eq h]
  have hnames := eq_concat_of_lastName? h
  generalize path.components.dropLast = above at hnames ⊢
  cases above with
  | nil =>
    -- The directory of a single component is the root, which resolves without a lookup.
    rw [answer_resolve hnames hfaults, Directory.follow_nil]
    show drive.answer (Directory.load rootAt >>= (·.lookup name)) = _
    rw [Drive.answer_bind (.load rootAt) (fun nested ↦ Composed.lookup nested name) hfaults, hroot]
    rfl
  | cons first rest =>
    have habove : (⟨first :: rest⟩ : Path).components = first :: rest := rfl
    rw [List.cons_append] at hnames
    rw [answer_resolve hnames hfaults, Directory.follow_concat,
      Drive.answer_bind (.pathResolve _ root rootAt)
        (fun target ↦ Composed.enterLookup target name) hfaults,
      Drive.answer_bind (.follow root first rest)
        (fun target ↦ Composed.enterLookup target name) hfaults,
      answer_resolve habove hfaults]

end Path

/-! ## Taking the last name out of its directory -/

/-- Writes the directory without the entry, then the map, and closes files that the map no longer
holds: what taking a name out comes to once its entry is known. -/
def Volume.unlinkEntry (volume : Volume) (parentFile : Handle) (parent : Directory)
    (index : Fin entryCount) (map : FreeMap) : Action Volume := do
  (parent.free index).store parentFile
  map.store volume.mapFile
  volume.closeDead map

/-- The path above leads to a directory whose entry of the last name is the one that was resolved,
and taking the name out frees this entry and no other. -/
structure Path.Unlinks (path : Path) (drive : Drive) (root : Directory) (rootAt : Nat)
    (target : Target) (name : String) (parentAt : Nat) (parentFile : Handle) (parent : Directory)
    (index : Fin entryCount) : Prop where
  resolveParent_eq : drive.answer (path.resolveParent root rootAt) = .ok parentAt
  fetch_eq : drive.answer (Handle.fetch parentAt) = .ok parentFile
  ofFile_eq : drive.answer (Directory.ofFile parentFile) = .ok parent
  index_eq : parent.index? name = some index
  target_eq : target = ⟨parent.table[index].sector.toNat, parent.table[index].isDirectory⟩
  remove_eq : parent.remove name = .ok (parent.free index)
  dropped : parent.table[index].inUse = true ∧ ((parent.free index).table[index]).inUse = false
  kept : ∀ place ≠ index, (parent.free index).table[place] = parent.table[place]
  /-- Whatever was read in between to work out the map without the target. -/
  unlink_eq : ∀ (volume : Volume) (between : Action FreeMap), Composed False between →
    ∃ final : Drive, drive.disk.Alike final.disk ∧
      (between >>= volume.unlink parentAt name) drive =
        match drive.answer between with
        | .ok map => volume.unlinkEntry parentFile parent index map final
        | .error stop => .error stop final

namespace Volume

variable {name : String} {parentAt : Nat} {parentFile : Handle} {parent : Directory}
  {index : Fin entryCount}

/-- Once the directory that holds a name is known, taking the name out goes on to the writes. -/
theorem unlink_eq_unlinkEntry (volume : Volume) (map : FreeMap)
    (hfaults : drive.disk.faults = .none) (halike : drive.disk.Alike other.disk)
    (hfetch : drive.answer (Handle.fetch parentAt) = .ok parentFile)
    (hofFile : drive.answer (Directory.ofFile parentFile) = .ok parent)
    (hremove : parent.remove name = .ok (parent.free index)) :
    ∃ final : Drive, drive.disk.Alike final.disk ∧
      volume.unlink parentAt name map other =
        volume.unlinkEntry parentFile parent index map final := by
  obtain ⟨opened, hopened, halike⟩ := Drive.exists_run (.handleFetch parentAt) hfaults halike
  obtain ⟨final, hfinal, halike⟩ := Drive.exists_run (.ofFile parentFile) hfaults halike
  rw [hfetch] at hopened
  rw [hofFile] at hfinal
  refine ⟨final, halike, ?_⟩
  rw [unlink_eq]
  show EStateM.bind (Handle.fetch parentAt) _ other = _
  rw [EStateM.bind, hopened]
  show EStateM.bind (Directory.ofFile parentFile) _ opened = _
  rw [EStateM.bind, hfinal]
  dsimp only [conclude]
  rw [hremove, unlinkEntry]
  exact congrFun (pure_bind (parent.free index) _) final

end Volume

namespace Path

variable {path : Path} {name : String} {root : Directory} {rootAt : Nat} {target : Target}

theorem exists_unlinks (hfaults : drive.disk.faults = .none)
    (h : drive.answer (path.resolveByParent name root rootAt) = .ok target) :
    ∃ parentAt parentFile parent index,
      path.Unlinks drive root rootAt target name parentAt parentFile parent index := by
  obtain ⟨parentAt, hparentAt, hlookup⟩ := Drive.answer_of_bind_eq_ok
    (.resolveParent path root rootAt)
    (fun sector ↦ (Composed.load sector).bind fun nested ↦ .lookup nested name) hfaults h
  obtain ⟨parent, hload, hlookup⟩ := Drive.answer_of_bind_eq_ok (.load parentAt)
    (fun nested ↦ .lookup nested name) hfaults hlookup
  obtain ⟨parentFile, hfetch, hofFile⟩ := Drive.answer_of_bind_eq_ok (.handleFetch parentAt)
    (fun file ↦ .ofFile file) hfaults hload
  rw [Directory.lookup, Directory.entry?] at hlookup
  cases hindex : parent.index? name with
  | none =>
    rw [hindex] at hlookup
    contradiction
  | some index =>
    rw [hindex] at hlookup
    have hremove : parent.remove name = .ok (parent.free index) := by
      rw [Directory.remove_eq, hindex]
    refine ⟨parentAt, parentFile, parent, index, hparentAt, hfetch, hofFile, hindex,
      (Except.ok.inj hlookup).symm, hremove, ⟨Directory.inUse_of_index? hindex, ?_⟩,
      fun place hplace ↦ ?_, fun volume between hbetween ↦ ?_⟩
    · rw [Directory.free, Directory.table_update, if_pos rfl]
      rfl
    · rw [Directory.free, Directory.table_update, if_neg hplace]
    · obtain ⟨middle, hmiddle, halike⟩ :=
        Drive.exists_run hbetween hfaults (Disk.Alike.refl drive.disk)
      show ∃ final, _ ∧ EStateM.bind between _ drive = _
      rw [EStateM.bind, hmiddle]
      cases drive.answer between with
      | error stop => exact ⟨middle, halike, rfl⟩
      | ok map =>
        exact Volume.unlink_eq_unlinkEntry volume map hfaults halike hfetch hofFile hremove

/-- On a disk that refuses nothing, whose directory at `rootAt` is `root`: resolving a path in one
walk and looking its last component up in the directory above give the same target or the same
failure. And where a path is resolved, its last component is taken out of the directory above
without failing, with the entry that was resolved and no other. -/
theorem resolve_eq_resolveByParent (hfaults : drive.disk.faults = .none)
    (hroot : drive.answer (Directory.load rootAt) = .ok root) (hdepth : 1 ≤ path.depth) :
    ∃ name, path.lastName? = some name ∧
      drive.answer (path.resolve root rootAt) =
        drive.answer (path.resolveByParent name root rootAt) ∧
      drive.answer (root.followFrom path 0) =
        drive.answer (path.resolveByParent name root rootAt) ∧
      (∀ stop, drive.answer (path.resolve root rootAt) = .error stop →
        stop = .error .notFound ∨ stop = .error .notADirectory ∨
          ∃ sector, drive.answer (Directory.load sector) = .error stop) ∧
      ∀ target, drive.answer (path.resolve root rootAt) = .ok target →
        ∃ parentAt parentFile parent index,
          path.Unlinks drive root rootAt target name parentAt parentFile parent index := by
  obtain ⟨name, hname⟩ := exists_lastName? hdepth
  have hsame := answer_resolveByParent hfaults hroot hname
  refine ⟨name, hname, hsame.symm, (answer_followFrom hname hfaults).trans hsame.symm,
    fun stop hstop ↦ ?_, fun target htarget ↦ exists_unlinks hfaults (hsame.trans htarget)⟩
  obtain ⟨first, rest, hnames⟩ := List.exists_cons_of_ne_nil (List.ne_nil_of_length_pos hdepth)
  rw [answer_resolve hnames hfaults] at hstop
  exact Directory.stop_of_follow hfaults hstop

/-- The file of a new volume is found both ways, and a path below it fails both ways. -/
theorem resolve_eq_resolveByParent_created :
    ∃ (drive : Drive) (root : Directory) (target : Target),
      drive.answer (Directory.load rootSector) = .ok root ∧
      drive.answer (resolve ⟨["a"]⟩ root rootSector) = .ok target ∧
      drive.answer (resolveByParent ⟨["a"]⟩ "a" root rootSector) = .ok target ∧
      drive.answer (resolveByParent ⟨["a", "b"]⟩ "b" root rootSector) =
        .error (.error .notADirectory) ∧
      drive.answer (resolve ⟨["a", "b"]⟩ root rootSector) = .error (.error .notADirectory) := by
  obtain ⟨volume, formatted, hformat, hplain, sector, path, hparse, hdepth, hto⟩ :=
    Session.exists_plain_created
  obtain rfl : path = ⟨["a"]⟩ := Except.ok.inj (hparse.symm.trans (by rfl))
  have hvalid := hplain.reached.valid
  generalize (Session.begin formatted volume).step (.create "/a" 300) = session at hto hvalid
  have hfaults := hvalid.faults_eq
  obtain ⟨loaded, hload, -⟩ := (hvalid.sound.load_performs session.image.targetAt_nil).alike
    hvalid.holds hfaults
  have hroot := Drive.answer_of_conclude hload
  have hlocate := hvalid.resolve_eq_ok.mp hto
  rw [Image.locate_of_parse hparse] at hlocate
  obtain ⟨final, hfinal, -⟩ := (Path.resolve_performs hvalid.sound ⟨["a"]⟩).alike hvalid.holds hfaults
  have hresolve := Drive.answer_of_conclude hfinal
  rw [hlocate] at hresolve
  -- The file is no directory, so nothing is loaded to look the second component up in.
  have hbelow : session.drive.answer
      (resolveByParent ⟨["a", "b"]⟩ "b" (session.image.table rootSector) rootSector) =
        .error (.error .notADirectory) := by
    have hlast : lastName? ⟨["a", "b"]⟩ = some "b" := rfl
    rw [resolveByParent_eq hlast, Drive.answer_bind (.pathResolve _ _ _)
      (fun target ↦ Composed.enterLookup target "b") hfaults]
    show session.drive.answer (resolve ⟨["a"]⟩ _ _) >>= _ = _
    rw [hresolve]
    rfl
  obtain ⟨name, hname, hsame, -⟩ :=
    resolve_eq_resolveByParent hfaults hroot (show 1 ≤ depth ⟨["a"]⟩ by decide)
  obtain ⟨other, hother, hfails, -⟩ :=
    resolve_eq_resolveByParent hfaults hroot (show 1 ≤ depth ⟨["a", "b"]⟩ by decide)
  obtain rfl : name = "a" := (Option.some.inj hname).symm
  obtain rfl : other = "b" := (Option.some.inj hother).symm
  exact ⟨session.drive, session.image.table rootSector, ⟨sector, false⟩, hroot, hresolve,
    hsame.symm.trans hresolve, hbelow, hfails.trans hbelow⟩

end Path

end SectorFS
