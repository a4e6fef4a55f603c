import SectorFS.Path.Lookup
import SectorFS.Proofs.Directory
import SectorFS.Proofs.Tables

/-!
# Places

A place leads from the root directory to a file by the positions of the entries on the way,
the last one first. Unlike a path it says nothing about names, and it exists for every entry
in use, so everything a volume holds is met at some place. What a place leads to depends on
the tables of the directories above it only: as long as these stay as they are, it leads to
the same file.
-/

namespace SectorFS

/-- The positions of the entries that lead to a file, the innermost first. -/
abbrev Place := List (Fin entryCount)

/-- No place lies below itself. -/
theorem Place.not_below_self (place : Place) (index : Fin entryCount) : ¬ index :: place <:+ place := by
  intro hsuffix
  have hlength := hsuffix.length_le
  rw [List.length_cons] at hlength
  omega

namespace Image

/-- What the entry at a position of a directory leads to, if the entry is in use. -/
@[irreducible] def child? (image : Image) (sector : Nat) (index : Fin entryCount) : Option Target :=
  let entry := (image.table sector).table[index]
  if entry.inUse then some ⟨entry.sector.toNat, entry.isDirectory⟩ else none

/-- What a place leads to. -/
def targetAt (image : Image) : Place → Option Target
  | [] => some ⟨rootSector, true⟩
  | index :: place =>
    match image.targetAt place with
    | some ⟨sector, true⟩ => image.child? sector index
    | _ => none

variable {image changed : Image}

theorem targetAt_nil (image : Image) : image.targetAt [] = some ⟨rootSector, true⟩ := rfl

theorem child?_congr {sector : Nat} {index : Fin entryCount}
    (h : (changed.table sector).table[index] = (image.table sector).table[index]) :
    changed.child? sector index = image.child? sector index := by
  rw [child?, child?, h]

theorem targetAt_cons {index : Fin entryCount} {place : Place} {target : Target} :
    image.targetAt (index :: place) = some target ↔
      ∃ sector, image.targetAt place = some ⟨sector, true⟩ ∧
        image.child? sector index = some target := by
  rw [targetAt]
  constructor
  · intro h
    split at h
    · rename_i sector hplace
      exact ⟨sector, hplace, h⟩
    · contradiction
  · rintro ⟨sector, hplace, hchild⟩
    rw [hplace]
    exact hchild

theorem targetAt_cons_of_directory {index : Fin entryCount} {place : Place} {sector : Nat}
    (h : image.targetAt place = some ⟨sector, true⟩) :
    image.targetAt (index :: place) = image.child? sector index := by
  rw [targetAt, h]

/-- Nothing is met below a place that leads nowhere. -/
theorem targetAt_append_of_none {place : Place} (h : image.targetAt place = none) (below : Place) :
    image.targetAt (below ++ place) = none := by
  induction below with
  | nil => exact h
  | cons index below ih =>
    rw [List.cons_append, targetAt, ih]

/-- A directory without entries has nothing below it. -/
theorem child?_of_empty {sector : Nat} (h : image.table sector = Directory.empty)
    (index : Fin entryCount) : image.child? sector index = none := by
  rw [child?, h, if_neg (by rw [Directory.inUse_empty]; exact Bool.false_ne_true)]

/-- What is above a place that leads somewhere is a directory. -/
theorem exists_targetAt_of_append {above below : Place} {target : Target}
    (h : image.targetAt (below ++ above) = some target) :
    ∃ upper, image.targetAt above = some upper ∧ (below ≠ [] → upper.isDirectory = true) := by
  induction below generalizing target with
  | nil => exact ⟨target, h, fun hne ↦ absurd rfl hne⟩
  | cons index below ih =>
    obtain ⟨sector, hplace, -⟩ := targetAt_cons.mp h
    obtain ⟨upper, habove, hdirectory⟩ := ih hplace
    refine ⟨upper, habove, fun _ ↦ ?_⟩
    cases below with
    | nil => rw [← Option.some.inj (hplace.symm.trans habove)]
    | cons _ _ => exact hdirectory (List.cons_ne_nil _ _)

/-- Nothing has a place below a file. -/
theorem eq_nil_of_targetAt_file {place below : Place} {sector : Nat} {target : Target}
    (hfile : image.targetAt place = some ⟨sector, false⟩)
    (h : image.targetAt (below ++ place) = some target) : below = [] := by
  obtain ⟨upper, hupper, hdirectory⟩ := exists_targetAt_of_append h
  obtain rfl := Option.some.inj (hfile.symm.trans hupper)
  by_contra hne
  exact Bool.false_ne_true (hdirectory hne)

/-! ## Changes -/

/-- A change of one entry is seen at its place and below it only. -/
theorem targetAt_of_not_suffix {parent : Place} {index : Fin entryCount}
    (h : ∀ place sector other, image.targetAt place = some ⟨sector, true⟩ →
      ¬ other :: place = index :: parent → changed.child? sector other = image.child? sector other)
    {place : Place} (hplace : ¬ index :: parent <:+ place) :
    changed.targetAt place = image.targetAt place := by
  induction place with
  | nil => rfl
  | cons other place ih =>
    rw [List.suffix_cons_iff, not_or] at hplace
    rw [targetAt, targetAt, ih hplace.2]
    split
    · rename_i sector htarget
      exact h place sector other htarget fun heq ↦ hplace.1 heq.symm
    · rfl

/-- Places lead where they led while every directory keeps its table. -/
theorem targetAt_congr
    (h : ∀ place sector, image.targetAt place = some ⟨sector, true⟩ →
      changed.table sector = image.table sector) (place : Place) :
    changed.targetAt place = image.targetAt place := by
  induction place with
  | nil => rfl
  | cons index place ih =>
    rw [targetAt, targetAt, ih]
    split
    · rename_i sector htarget
      exact child?_congr (by rw [h place sector htarget])
    · rfl

/-! ## Following names -/

/-- What the names lead to from a target. -/
def follow (image : Image) : Target → List String → Except Error Target
  | target, [] => .ok target
  | target, name :: rest =>
    if target.isDirectory then
      match Directory.entry? (image.table target.sector) name with
      | none => .error .notFound
      | some entry => image.follow ⟨entry.sector.toNat, entry.isDirectory⟩ rest
    else
      .error .notADirectory

theorem follow_append (target : Target) (first rest : List String) :
    image.follow target (first ++ rest) =
      image.follow target first >>= (image.follow · rest) := by
  induction first generalizing target with
  | nil => rfl
  | cons name first ih =>
    rw [List.cons_append, follow, follow]
    split
    · split
      · rfl
      · exact ih _
    · rfl

/-- Names lead nowhere because one of them is not there, or because it is that of a file and others
follow. -/
theorem follow_eq_error {target : Target} {names : List String} {cause : Error}
    (h : image.follow target names = .error cause) : cause = .notFound ∨ cause = .notADirectory := by
  induction names generalizing target with
  | nil => contradiction
  | cons name rest ih =>
    rw [follow] at h
    split at h
    · split at h
      · exact .inl (Except.error.inj h).symm
      · exact ih h
    · exact .inr (Except.error.inj h).symm

/-- A name leads to the entry at its position. -/
theorem child?_of_index? {sector : Nat} {name : String} {index : Fin entryCount}
    (h : (image.table sector).index? name = some index) :
    image.child? sector index = some
      ⟨(image.table sector).table[index].sector.toNat,
        (image.table sector).table[index].isDirectory⟩ := by
  rw [child?, if_pos (Directory.inUse_of_index? h)]

theorem follow_cons {sector : Nat} {name : String} {rest : List String} :
    image.follow ⟨sector, true⟩ (name :: rest) =
      match (image.table sector).index? name with
      | none => .error .notFound
      | some index => image.follow
        ⟨(image.table sector).table[index].sector.toNat,
          (image.table sector).table[index].isDirectory⟩ rest := by
  rw [follow, if_pos rfl, Directory.entry?]
  cases (image.table sector).index? name <;> rfl

/-- Nothing is below a file. -/
theorem follow_file {sector : Nat} {names : List String} {target : Target} :
    image.follow ⟨sector, false⟩ names = .ok target ↔ names = [] ∧ target = ⟨sector, false⟩ := by
  cases names with
  | nil => simp [follow, eq_comm]
  | cons name rest => simp [follow]

/-- Names lead where they led while the tables at a place and below it stay as they are. -/
theorem follow_congr {place : Place} {target : Target} (hplace : image.targetAt place = some target)
    (h : ∀ below sector, image.targetAt (below ++ place) = some ⟨sector, true⟩ →
      changed.table sector = image.table sector) (names : List String) :
    changed.follow target names = image.follow target names := by
  induction names generalizing place target with
  | nil => rfl
  | cons name rest ih =>
    obtain ⟨sector, isDirectory⟩ := target
    cases isDirectory with
    | false => rw [follow, follow, if_neg Bool.false_ne_true, if_neg Bool.false_ne_true]
    | true =>
      have htable := h [] sector hplace
      rw [follow_cons, follow_cons, htable]
      split
      · rfl
      · rename_i index hindex
        refine ih ((targetAt_cons_of_directory hplace).trans (child?_of_index? hindex))
          fun below found hfound ↦ h (below ++ [index]) found ?_
        rwa [List.append_assoc, List.singleton_append]

/-- Names lead to places below the place they start from, one entry for each name. -/
theorem exists_place_of_follow {place : Place} {target reached : Target} {names : List String}
    (hplace : image.targetAt place = some target) (h : image.follow target names = .ok reached) :
    ∃ below, below.length = names.length ∧ image.targetAt (below ++ place) = some reached := by
  induction names generalizing place target with
  | nil => exact ⟨[], rfl, Except.ok.inj h ▸ hplace⟩
  | cons name rest ih =>
    obtain ⟨sector, isDirectory⟩ := target
    cases isDirectory with
    | false => rw [follow, if_neg Bool.false_ne_true] at h; contradiction
    | true =>
      rw [follow_cons] at h
      split at h
      · contradiction
      · rename_i index hindex
        have hchild := (targetAt_cons_of_directory hplace).trans (child?_of_index? hindex)
        obtain ⟨below, hlength, hreached⟩ := ih hchild h
        refine ⟨below ++ [index], by rw [List.length_append, hlength]; rfl, ?_⟩
        rwa [List.append_assoc, List.singleton_append]

end Image

end SectorFS
