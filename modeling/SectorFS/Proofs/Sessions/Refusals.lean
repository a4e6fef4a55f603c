import SectorFS.Proofs.Sessions.Creations

/-!
# Refused calls

An operation looks before it writes: whatever can stop it is found out before the first
sector is written. So a call on a path or on an identifier of the table that stops is one
that was refused, with a cause that the device has no part in, and nothing is written for
it. The volume is the one before the call as well, with every open file at its position.

This says nothing about transfers through a handle of the program's own, which may be one on
a file that is gone.
-/

namespace SectorFS.Session

variable {sectors : Nat} {session : Session} {call : Call}

/-- A call that stops was refused by the volume: no sector was written for it, the medium is the
same, and so is the volume with its open files and their positions. -/
theorem Reached.refusal (h : Reached sectors session) (hcall : call.IsAddressed) {stop : Stop}
    {final : Drive} (hrun : call.perform session.volume session.drive = .error stop final) :
    (∃ cause, stop = .error cause ∧ ∀ reason, cause ≠ .device reason) ∧
      final.disk.written = session.drive.disk.written ∧
      final.disk.medium = session.drive.disk.medium ∧
      (session.step call).volume = session.volume := by
  have hvalid := h.valid
  have hstep : (session.step call).volume = session.volume := by
    rw [step_eq_resume, hrun]
    rfl
  obtain ⟨outcome, writes, hperforms, heffect⟩ := hvalid.performed hcall
  cases outcome with
  | ok result =>
    obtain ⟨other, hother, -, -⟩ := hperforms.run hvalid.holds hvalid.faults_eq
    rw [hrun] at hother
    contradiction
  | error cause =>
    obtain ⟨hrefusal, rfl⟩ := heffect.of_error
    obtain ⟨other, hother, halike⟩ := hperforms.alike hvalid.holds hvalid.faults_eq
    obtain ⟨rfl, rfl⟩ := EStateM.Result.error.inj (hrun.symm.trans hother)
    exact ⟨hrefusal, halike.written_eq, halike.medium_eq, hstep⟩

/-- A file that needs more sectors than there are is refused for want of them, and the medium and
the volume stay the same. -/
theorem refusal_large : ∃ volume formatted, Volume.format (.blank 64) = .ok volume formatted ∧
    let session := begin formatted volume
    ∃ final,
      (Call.create "/a" 100000).perform volume formatted = .error (.error .noSpace) final ∧
      final.disk.written = formatted.disk.written ∧ final.disk.medium = formatted.disk.medium ∧
      (session.step (.create "/a" 100000)).volume = volume := by
  obtain ⟨volume, formatted, hformat, hreached, htable, hlength⟩ := exists_reached_small
  have hnot : ¬ (begin formatted volume).image.Accepts "/a" 100000
      ((begin formatted volume).image.freeMap 64).free.length := by
    rintro ⟨path, directory, name, level, -, -, -, -, -, -, hlevel, hroom⟩
    obtain rfl : level = 2 := (Option.some.inj hlevel).symm
    rw [hlength] at hroom
    exact absurd hroom (by decide)
  obtain ⟨hanswer, -⟩ := hreached.valid.create_refused (.file "/a" 100000) hnot
  rw [Image.creationRefusal_of_empty htable (by rfl)] at hanswer
  cases hrun : (Call.create "/a" 100000).perform volume formatted with
  | ok result final =>
    rw [answer, begin, hrun] at hanswer
    contradiction
  | error stop final =>
    rw [answer, begin, hrun] at hanswer
    obtain rfl : stop = .error .noSpace := Except.error.inj hanswer
    obtain ⟨-, hwritten, hmedium, hvolume⟩ :=
      @Reached.refusal 64 _ (.create "/a" 100000) hreached trivial _ _ hrun
    exact ⟨volume, formatted, hformat, final, hrun, hwritten, hmedium, hvolume⟩

end SectorFS.Session
