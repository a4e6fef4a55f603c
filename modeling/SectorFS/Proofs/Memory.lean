import SectorFS.Memory
import SectorFS.Proofs.Requests

/-!
# Operations on a value in memory

Running an operation on a value (`InPlace.using`) gives an operation on the drive, and the
sequencing of such operations is the sequencing of these with the value handed on. So
`Performs` speaks about them as well.

What this view leaves out is the value that an operation has reached when it stops. An
operation that changes the value only after everything that can fail (`Commits`) has then not
changed it. Nothing is said about the value after a trap.
-/

namespace SectorFS

/-- Errors, as opposed to traps. -/
def Stop.IsError : Stop → Prop
  | .error _ => True
  | .trap _ => False

namespace InPlace

variable {σ α β : Type}

/-! ## Operations on the drive -/

theorem using_bind (operation : InPlace σ α) (next : α → InPlace σ β) (value : σ) :
    (operation >>= next).using value =
      operation.using value >>= fun reached ↦ (next reached.1).using reached.2 := by
  funext drive
  show InPlace.using (EStateM.bind operation next) value drive =
    EStateM.bind (operation.using value) _ drive
  simp only [InPlace.using, EStateM.bind]
  cases operation ⟨drive, value⟩ <;> rfl

theorem using_lift (action : Action α) (value : σ) :
    (liftM action : InPlace σ α).using value = do return (← action, value) := by
  funext drive
  show InPlace.using (monadLift action) value drive = EStateM.bind action _ drive
  simp only [InPlace.using, EStateM.bind, monadLift, MonadLift.monadLift]
  cases action drive <;> rfl

theorem using_lift_bind (action : Action α) (next : α → InPlace σ β) (value : σ) :
    ((liftM action : InPlace σ α) >>= next).using value =
      action >>= fun result ↦ (next result).using value := by
  rw [using_bind, using_lift, bind_assoc]
  simp only [pure_bind]

theorem using_liftTrap_bind (result : Except Trap α) (next : α → InPlace σ β) (value : σ) :
    ((liftM result : InPlace σ α) >>= next).using value =
      (liftM result : Action α) >>= fun result ↦ (next result).using value := by
  cases result <;> rfl

theorem using_liftError_bind (result : Except Error α) (next : α → InPlace σ β) (value : σ) :
    ((liftM result : InPlace σ α) >>= next).using value =
      (liftM result : Action α) >>= fun result ↦ (next result).using value := by
  cases result <;> rfl

theorem using_current_bind (next : σ → InPlace σ β) (value : σ) :
    (current >>= next).using value = (next value).using value := by
  rw [using_bind]
  exact pure_bind (value, value) _

theorem using_assign_bind (next : Unit → InPlace σ β) (value changed : σ) :
    (assign changed >>= next).using value = (next ()).using changed := by
  rw [using_bind]
  exact pure_bind ((), changed) _

/-- A run on a value that ends well is a run on the drive with the value. -/
theorem eq_ok_of_using {operation : InPlace σ α} {value reached : σ} {drive final : Drive}
    {result : α} (h : operation.using value drive = .ok (result, reached) final) :
    operation ⟨drive, value⟩ = .ok result ⟨final, reached⟩ := by
  rw [InPlace.using] at h
  cases hrun : operation ⟨drive, value⟩ with
  | error stop memory =>
    rw [hrun] at h
    contradiction
  | ok found memory =>
    rw [hrun] at h
    obtain ⟨hvalue, rfl⟩ := EStateM.Result.ok.inj h
    obtain ⟨rfl, rfl⟩ := Prod.mk.inj hvalue
    rfl

/-! ### Without a result -/

theorem after_lift (action : Action Unit) (value : σ) :
    (liftM action : InPlace σ Unit).after value = do
      action
      return value := by
  rw [after, using_lift, bind_assoc]
  rfl

theorem after_lift_bind (action : Action α) (next : α → InPlace σ Unit) (value : σ) :
    ((liftM action : InPlace σ α) >>= next).after value =
      action >>= fun result ↦ (next result).after value := by
  rw [after, using_lift_bind, bind_assoc]
  rfl

theorem after_liftTrap_bind (result : Except Trap α) (next : α → InPlace σ Unit) (value : σ) :
    ((liftM result : InPlace σ α) >>= next).after value =
      (liftM result : Action α) >>= fun result ↦ (next result).after value := by
  cases result <;> rfl

theorem after_liftError_bind (result : Except Error α) (next : α → InPlace σ Unit) (value : σ) :
    ((liftM result : InPlace σ α) >>= next).after value =
      (liftM result : Action α) >>= fun result ↦ (next result).after value := by
  cases result <;> rfl

theorem after_current_bind (next : σ → InPlace σ Unit) (value : σ) :
    (current >>= next).after value = (next value).after value := by
  rw [after, using_current_bind]
  rfl

theorem after_assign (value changed : σ) : (assign changed).after value = return changed := rfl

theorem after_bind (operation : InPlace σ Unit) (next : InPlace σ Unit) (value : σ) :
    (operation >>= fun _ ↦ next).after value =
      operation.after value >>= fun reached ↦ next.after reached := by
  rw [after, using_bind, after, bind_assoc, bind_assoc]
  rfl

/-! ## What is kept in memory -/

/-- The operation leaves the value alone, however it ends. -/
def Looks (operation : InPlace σ α) : Prop :=
  ∀ memory, match operation memory with
    | .ok _ final => final.value = memory.value
    | .error _ final => final.value = memory.value

/-- Nothing of the given kind stops the operation. -/
def Certain (kind : Stop → Prop) (operation : InPlace σ α) : Prop :=
  ∀ memory stop final, operation memory = .error stop final → ¬ kind stop

/-- Where something of the given kind stops the operation, the value is the one it started with. -/
def Commits (kind : Stop → Prop) (operation : InPlace σ α) : Prop :=
  ∀ memory stop final, operation memory = .error stop final → kind stop →
    final.value = memory.value

variable {kind : Stop → Prop} {operation : InPlace σ α} {next : α → InPlace σ β}

theorem bind_eq_error {memory final : Memory σ} {stop : Stop}
    (h : (operation >>= next) memory = .error stop final) :
    operation memory = .error stop final ∨
      ∃ result middle, operation memory = .ok result middle ∧
        next result middle = .error stop final := by
  cases hrun : operation memory with
  | error cause middle =>
    left
    obtain ⟨rfl, rfl⟩ := EStateM.Result.error.inj ((bind_of_error hrun).symm.trans h)
    rfl
  | ok result middle =>
    right
    exact ⟨result, middle, rfl, (bind_of_ok hrun).symm.trans h⟩

/-! ### Looking -/

namespace Looks

theorem pure (result : α) : Looks (Pure.pure result : InPlace σ α) := fun _ ↦ rfl

theorem throw (stop : Stop) : Looks (MonadExcept.throw stop : InPlace σ α) := fun _ ↦ rfl

theorem fail (cause : Error) : Looks (SectorFS.fail cause : InPlace σ α) := throw (.error cause)

theorem current : Looks (InPlace.current : InPlace σ σ) := fun _ ↦ rfl

theorem lift (action : Action α) : Looks (liftM action : InPlace σ α) := by
  rintro ⟨drive, value⟩
  show match (monadLift action : InPlace σ α) ⟨drive, value⟩ with
    | .ok _ final => final.value = value
    | .error _ final => final.value = value
  simp only [monadLift, MonadLift.monadLift]
  cases action drive <;> rfl

theorem liftTrap (result : Except Trap α) : Looks (liftM result : InPlace σ α) := by
  cases result with
  | ok value => exact pure value
  | error cause => exact throw (.trap cause)

theorem liftError (result : Except Error α) : Looks (liftM result : InPlace σ α) := by
  cases result with
  | ok value => exact pure value
  | error cause => exact fail cause

theorem of_ok (h : Looks operation) {memory final : Memory σ} {result : α}
    (hrun : operation memory = .ok result final) : final.value = memory.value := by
  have hlooks := h memory
  rwa [hrun] at hlooks

theorem of_error (h : Looks operation) {memory final : Memory σ} {stop : Stop}
    (hrun : operation memory = .error stop final) : final.value = memory.value := by
  have hlooks := h memory
  rwa [hrun] at hlooks

theorem commits (h : Looks operation) : Commits kind operation :=
  fun _ _ _ hrun _ ↦ h.of_error hrun

end Looks

/-! ### Going on for certain -/

namespace Certain

theorem pure (result : α) : Certain kind (Pure.pure result : InPlace σ α) := nofun

theorem current : Certain kind (InPlace.current : InPlace σ σ) := nofun

theorem assign (value : σ) : Certain kind (InPlace.assign value) := nofun

theorem note (severity : Severity) (text : String) :
    Certain kind (liftM (Drive.note severity text) : InPlace σ Unit) := nofun

theorem bind (h : Certain kind operation) (hnext : ∀ result, Certain kind (next result)) :
    Certain kind (operation >>= next) := by
  intro memory stop final hrun
  rcases bind_eq_error hrun with hstopped | ⟨result, middle, -, hstopped⟩
  · exact h memory stop final hstopped
  · exact hnext result middle stop final hstopped

theorem liftTrap (result : Except Trap α) : Certain Stop.IsError (liftM result : InPlace σ α) := by
  cases result with
  | ok value => exact pure value
  | error cause =>
    intro memory stop final hrun
    obtain ⟨rfl, -⟩ := EStateM.Result.error.inj hrun
    exact id

theorem listForM {step : β → InPlace σ Unit} (hstep : ∀ item, Certain kind (step item))
    (items : List β) : Certain kind (items.forM step) := by
  induction items with
  | nil => exact pure ()
  | cons item rest ih => exact (hstep item).bind fun _ ↦ ih

theorem commits (h : Certain kind operation) : Commits kind operation :=
  fun memory stop final hrun hkind ↦ absurd hkind (h memory stop final hrun)

end Certain

/-! ### Committing -/

namespace Commits

/-- What only looks can come before. -/
theorem bind (h : Looks operation) (hnext : ∀ result, Commits kind (next result)) :
    Commits kind (operation >>= next) := by
  intro memory stop final hrun hkind
  rcases bind_eq_error hrun with hstopped | ⟨result, middle, hmiddle, hstopped⟩
  · exact h.of_error hstopped
  · exact (hnext result middle stop final hstopped hkind).trans (h.of_ok hmiddle)

/-- What goes on for certain can come after. -/
theorem followed (h : Commits kind operation) (hnext : ∀ result, Certain kind (next result)) :
    Commits kind (operation >>= next) := by
  intro memory stop final hrun hkind
  rcases bind_eq_error hrun with hstopped | ⟨result, middle, -, hstopped⟩
  · exact h memory stop final hstopped hkind
  · exact absurd hkind (hnext result middle stop final hstopped)

/-- A run on a value that stops is a run on the drive with the value. -/
theorem eq_error_of_using (h : Commits kind operation) {value : σ} {drive final : Drive}
    {stop : Stop} (hkind : kind stop) (hrun : operation.using value drive = .error stop final) :
    operation ⟨drive, value⟩ = .error stop ⟨final, value⟩ := by
  rw [InPlace.using] at hrun
  cases hend : operation ⟨drive, value⟩ with
  | ok result memory =>
    rw [hend] at hrun
    contradiction
  | error cause memory =>
    rw [hend] at hrun
    obtain ⟨rfl, rfl⟩ := EStateM.Result.error.inj hrun
    obtain rfl : memory.value = value := h _ _ _ hend hkind
    rfl

end Commits

end InPlace

namespace Performs

variable {σ α β : Type} {image : Image} {sectors : Nat} {value reached : σ}

theorem usingBind {operation : InPlace σ α} {next : α → InPlace σ β} {result : α}
    {outcome : Except Stop (β × σ)} {first rest : List Write}
    (hfirst : Performs (operation.using value) image sectors (.ok (result, reached)) first)
    (hnext : Performs ((next result).using reached) (image.putAll first) sectors outcome rest) :
    Performs ((operation >>= next).using value) image sectors outcome (first ++ rest) := by
  rw [InPlace.using_bind]
  exact hfirst.bind hnext

theorem usingStep {operation : InPlace σ α} {next : α → InPlace σ β} {result : α}
    {outcome : Except Stop (β × σ)} {writes : List Write}
    (hfirst : Performs (operation.using value) image sectors (.ok (result, reached)) [])
    (hnext : Performs ((next result).using reached) image sectors outcome writes) :
    Performs ((operation >>= next).using value) image sectors outcome writes :=
  usingBind hfirst hnext

theorem usingStop {operation : InPlace σ α} {next : α → InPlace σ β} {cause : Stop}
    {writes : List Write}
    (h : Performs (operation.using value) image sectors (.error cause) writes) :
    Performs ((operation >>= next).using value) image sectors (.error cause) writes := by
  rw [InPlace.using_bind]
  exact h.stop

theorem usingPure (result : α) :
    Performs ((Pure.pure result : InPlace σ α).using value) image sectors (.ok (result, value))
      [] :=
  pure (result, value)

theorem usingFail (cause : Error) :
    Performs (InPlace.using (SectorFS.fail cause : InPlace σ α) value) image sectors
      (.error (.error cause)) [] :=
  ⟨[], rfl, fun drive _ ↦ ⟨drive.journal, rfl⟩⟩

theorem usingLift {action : Action α} {result : α} {writes : List Write}
    (h : Performs action image sectors (.ok result) writes) :
    Performs ((liftM action : InPlace σ α).using value) image sectors (.ok (result, value))
      writes := by
  rw [InPlace.using_lift]
  exact h.map fun result ↦ (result, value)

/-- A loop over a list that changes the value and writes nothing. -/
theorem usingForM {step : α → InPlace σ Unit} {items : List α} {change : σ → α → σ}
    (hstep : ∀ done item rest, items = done ++ item :: rest →
      Performs ((step item).using (done.foldl change value)) image sectors
        (.ok ((), change (done.foldl change value) item)) []) :
    Performs ((items.forM step).using value) image sectors (.ok ((), items.foldl change value))
      [] := by
  induction items generalizing value with
  | nil => exact usingPure ()
  | cons item rest ih =>
    show Performs ((step item >>= fun _ ↦ rest.forM step).using value) _ _ _ _
    refine usingStep (hstep [] item rest rfl) (ih fun done other tail hsplit ↦ ?_)
    exact hstep (item :: done) other tail (by rw [hsplit]; rfl)

end Performs

end SectorFS
