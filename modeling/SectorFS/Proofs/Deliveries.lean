import SectorFS.Proofs.Requests

/-!
# Operations that end with a write

Where an operation asks for nothing after the last of its writes, a refused request leaves at least
one write undone, whatever the disk refuses and whenever: `Delivers` says so for the operations that
have this form, and `Delivers.ends` what a disk with any faults holds after them. `Performs` leaves
open whether something is read after the last write.
-/

namespace SectorFS

/-! ## Up to a refused request -/

namespace Disk

/-- A disk that has stopped has served the requests before the one that it refused. -/
theorem exists_served_of_stopped {disk stopped : Disk} {requests : List Request}
    (h : disk.serveAll requests = .error stopped) :
    ∃ before refused rest served, requests = before ++ refused :: rest ∧
      disk.serveAll before = .ok served ∧ stopped = served.turnDown refused := by
  induction requests generalizing disk with
  | nil => exact absurd h nofun
  | cons request rest ih =>
    rw [serveAll_cons, serve] at h
    split at h
    · obtain rfl := Except.error.inj h
      exact ⟨[], request, rest, disk, rfl, rfl, rfl⟩
    · rename_i haccepts
      obtain ⟨before, refused, tail, served, rfl, hserved, hstopped⟩ := ih h
      refine ⟨request :: before, refused, tail, served, rfl, ?_, hstopped⟩
      rw [serveAll_cons, serve, if_neg haccepts]
      exact hserved

theorem Holds.turnDown {disk : Disk} {image : Image} {sectors : Nat}
    (h : disk.Holds image sectors) (request : Request) :
    (disk.turnDown request).Holds image sectors := by
  cases request with
  | read number => exact h.request
  | write number content => exact h.request
  | sync => exact h

theorem medium_turnDown (disk : Disk) (request : Request) :
    (disk.turnDown request).medium = disk.medium := by
  cases request <;> rfl

end Disk

/-- No request follows the last write. -/
def EndsWriting (requests : List Request) : Prop :=
  ∀ last ∈ requests.getLast?, ∃ write, last.write? = some write

namespace EndsWriting

variable {leading trailing before rest : List Request} {refused : Request}

theorem append (hleading : EndsWriting leading) (htrailing : EndsWriting trailing) :
    EndsWriting (leading ++ trailing) := by
  intro last hlast
  rw [List.getLast?_append, Option.mem_def, Option.or_eq_some_iff] at hlast
  rcases hlast with hlast | ⟨-, hlast⟩
  · exact htrailing last hlast
  · exact hleading last hlast

/-- What is asked for before a write does not matter. -/
theorem append_of_ne_nil (htrailing : EndsWriting trailing) (hne : writesOf trailing ≠ []) :
    EndsWriting (leading ++ trailing) := by
  intro last hlast
  have hsome : trailing ≠ [] := by
    rintro rfl
    contradiction
  rw [List.getLast?_append_of_ne_nil _ hsome] at hlast
  exact htrailing last hlast

/-- From a request that is refused on, a write is missing. -/
theorem length_lt (h : EndsWriting (before ++ refused :: rest)) :
    (writesOf before).length < (writesOf (before ++ refused :: rest)).length := by
  have hne : refused :: rest ≠ [] := List.cons_ne_nil _ _
  have hmem : (refused :: rest).getLast hne ∈ refused :: rest := List.getLast_mem _
  have hlast : (before ++ refused :: rest).getLast? = some ((refused :: rest).getLast hne) := by
    rw [List.getLast?_append_of_ne_nil _ hne, List.getLast?_eq_some_getLast hne]
  obtain ⟨write, hwrite⟩ := h _ hlast
  have hpos : 0 < (writesOf (refused :: rest)).length :=
    List.length_pos_of_mem (List.mem_filterMap.mpr ⟨_, hmem, hwrite⟩)
  rw [writesOf_append, List.length_append]
  omega

end EndsWriting

/-! ## Deliveries -/

/-- On a disk with the given content, the operation asks for some fixed requests that include the
given writes and end with the last of them, and ends as stated unless one of them is refused. -/
def Delivers {α : Type} (action : Action α) (image : Image) (sectors : Nat)
    (outcome : Except Stop α) (writes : List Write) : Prop :=
  ∃ requests, writesOf requests = writes ∧ EndsWriting requests ∧
    Asks action image sectors outcome requests

namespace Delivers

variable {α β : Type} {image : Image} {sectors : Nat}

theorem performs {action : Action α} {outcome : Except Stop α} {writes : List Write}
    (h : Delivers action image sectors outcome writes) :
    Performs action image sectors outcome writes :=
  let ⟨requests, hwrites, _, hasks⟩ := h
  ⟨requests, hwrites, hasks⟩

theorem pure (value : α) : Delivers (Pure.pure value) image sectors (.ok value) [] :=
  ⟨[], rfl, nofun, fun drive _ ↦ ⟨drive.journal, rfl⟩⟩

/-- An operation that is carried out with a single request, which is a write. -/
theorem writeSector {number : Nat} (content : Sector) (hnumber : number < sectors)
    (hword : number < 2 ^ 57) :
    Delivers (Drive.writeSector number content) image sectors (.ok ()) [(number, content)] := by
  refine ⟨[.write number content], rfl, fun last hlast ↦ ?_, .writeSector content hnumber hword⟩
  obtain rfl := Option.some.inj hlast
  exact ⟨_, rfl⟩

theorem bind {action : Action α} {next : α → Action β} {value : α} {outcome : Except Stop β}
    {first rest : List Write} (haction : Delivers action image sectors (.ok value) first)
    (hnext : Delivers (next value) (image.putAll first) sectors outcome rest) :
    Delivers (action >>= next) image sectors outcome (first ++ rest) := by
  obtain ⟨leading, rfl, hleading, haction⟩ := haction
  obtain ⟨trailing, rfl, htrailing, hnext⟩ := hnext
  exact ⟨leading ++ trailing, writesOf_append _ _, hleading.append htrailing,
    haction.bind hnext⟩

/-- Before a write, anything may be asked for. -/
theorem step {action : Action α} {next : α → Action β} {value : α} {outcome : Except Stop β}
    {writes : List Write} (haction : Performs action image sectors (.ok value) [])
    (hnext : Delivers (next value) image sectors outcome writes) (hne : writes ≠ []) :
    Delivers (action >>= next) image sectors outcome writes := by
  obtain ⟨leading, hnone, haction⟩ := haction
  obtain ⟨trailing, rfl, htrailing, hnext⟩ := hnext
  refine ⟨leading ++ trailing, by rw [writesOf_append, hnone, List.nil_append],
    htrailing.append_of_ne_nil hne, Asks.bind haction ?_⟩
  rwa [hnone]

theorem map {action : Action α} {value : α} {writes : List Write} (change : α → β)
    (haction : Delivers action image sectors (.ok value) writes) :
    Delivers (do return change (← action)) image sectors (.ok (change value)) writes := by
  rw [← List.append_nil writes]
  exact haction.bind (pure (change value))

/-- Whatever the disk refuses: either all is written, or the operation stops with the first writes
on the disk and at least one missing. -/
theorem ends {action : Action α} {outcome : Except Stop α} {writes : List Write}
    (h : Delivers action image sectors outcome writes) {drive : Drive}
    (hdrive : drive.disk.Holds image sectors) (hwrites : ∀ write ∈ writes, write.1 < sectors) :
    ∃ final : Drive, final.disk.medium.size = drive.disk.medium.size ∧
      (action drive = conclude outcome final ∧
          final.disk.Holds (image.putAll writes) sectors ∨
        ∃ count < writes.length, action drive = .error (.error (.device .injected)) final ∧
          final.disk.Holds (image.putAll (writes.take count)) sectors) := by
  obtain ⟨requests, rfl, hends, hasks⟩ := h
  obtain ⟨journal, hrun⟩ := hasks drive hdrive
  cases hserve : drive.disk.serveAll requests with
  | ok disk =>
    rw [hserve] at hrun
    exact ⟨⟨disk, journal⟩, Disk.size_serveAll hdrive hserve hwrites,
      .inl ⟨hrun, (Disk.serveAll_spec hdrive hserve).1⟩⟩
  | error disk =>
    rw [hserve] at hrun
    obtain ⟨before, refused, rest, served, rfl, hserved, rfl⟩ :=
      Disk.exists_served_of_stopped hserve
    have hwritten : (writesOf (before ++ refused :: rest)).take (writesOf before).length =
        writesOf before := by
      rw [writesOf_append, List.take_left]
    refine ⟨⟨served.turnDown refused, journal⟩, ?_,
      .inr ⟨(writesOf before).length, hends.length_lt, hrun, ?_⟩⟩
    · rw [Disk.medium_turnDown]
      refine Disk.size_serveAll hdrive hserved fun write hwrite ↦ hwrites write ?_
      rw [writesOf_append]
      exact List.mem_append_left _ hwrite
    · rw [hwritten]
      exact (Disk.serveAll_spec hdrive hserved).1.turnDown refused

end Delivers

end SectorFS
