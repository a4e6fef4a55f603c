import SectorFS.Volume.Contents
import SectorFS.Proofs.Removal

/-!
# Listing a tree

A recursive listing walks the tables in preorder: the lines of what is below a directory
follow its own line, before the line of its next sibling. On a sound image the walk ends, since
no line is deeper than there are sectors, and the lines of depth zero are the flat listing.
-/

namespace SectorFS

variable {image : Image} {sectors : Nat}

/-! ## The order of the lines -/

/-- The lines of some entries of a directory, in the order of the table. Those of what is below a
sub-directory follow its own line and are one level deeper. -/
inductive Image.Preorder (image : Image) : Nat → List Entry → List Listed → Prop
  | nil (depth : Nat) : image.Preorder depth [] []
  | file {depth : Nat} {entry : Entry} {rest : List Entry} {lines : List Listed}
      (hkind : entry.isDirectory = false) (hrest : image.Preorder depth rest lines) :
      image.Preorder depth (entry :: rest) (.ofEntry depth entry :: lines)
  | directory {depth : Nat} {entry : Entry} {rest : List Entry} {below lines : List Listed}
      (hkind : entry.isDirectory = true)
      (hbelow : image.Preorder (depth + 1) (image.table entry.sector.toNat).entries below)
      (hrest : image.Preorder depth rest lines) :
      image.Preorder depth (entry :: rest)
        (.ofEntry depth entry :: (below.map (·.under entry.shownName) ++ lines))

namespace Image.Preorder

variable {depth : Nat} {entries : List Entry} {lines : List Listed} {place : Place}

theorem depth_le (h : image.Preorder depth entries lines) : ∀ line ∈ lines, depth ≤ line.depth := by
  induction h with
  | nil depth => exact fun _ hline ↦ absurd hline List.not_mem_nil
  | file hkind hrest ih =>
    intro line hline
    rcases List.mem_cons.mp hline with rfl | hline
    · exact Nat.le_refl _
    · exact ih line hline
  | directory hkind hbelow hrest ihBelow ih =>
    intro line hline
    rw [List.mem_cons, List.mem_append, List.mem_map] at hline
    obtain rfl | ⟨lower, hlower, rfl⟩ | hline := hline
    · exact Nat.le_refl _
    · exact Nat.le_of_succ_le (ihBelow lower hlower)
    · exact ih line hline

/-- The lines of the depth of the directory are those of its entries. -/
theorem filter_depth (h : image.Preorder depth entries lines) :
    lines.filter (·.depth == depth) = entries.map (.ofEntry depth) := by
  induction h with
  | nil depth => rfl
  | @file depth entry rest lines hkind hrest ih =>
    rw [List.filter_cons_of_pos (by exact beq_self_eq_true depth), ih, List.map_cons]
  | @directory depth entry rest below lines hkind hbelow hrest ihBelow ih =>
    have hdeeper : (below.map (·.under entry.shownName)).filter (·.depth == depth) = [] := by
      rw [List.filter_eq_nil_iff]
      intro line hline
      obtain ⟨lower, hlower, rfl⟩ := List.mem_map.mp hline
      have hlt : depth + 1 ≤ lower.depth := hbelow.depth_le lower hlower
      have hsame : (lower.under entry.shownName).depth = lower.depth := rfl
      rw [hsame, beq_iff_eq]
      omega
    rw [List.filter_cons_of_pos (by exact beq_self_eq_true depth), List.filter_append, hdeeper,
      List.nil_append, ih, List.map_cons]

/-- No line is deeper than the place that it stands for is long. -/
theorem depth_lt (h : image.Preorder depth entries lines) (hsound : image.Sound sectors)
    {sector : Nat} (hplace : image.targetAt place = some ⟨sector, true⟩)
    (hentries : ∀ entry ∈ entries, entry ∈ (image.table sector).entries)
    (hdepth : depth ≤ place.length) : ∀ line ∈ lines, line.depth < sectors := by
  induction h generalizing place sector with
  | nil depth => exact fun _ hline ↦ absurd hline List.not_mem_nil
  | file hkind hrest ih =>
    intro line hline
    rcases List.mem_cons.mp hline with rfl | hline
    · exact Nat.lt_of_le_of_lt hdepth (hsound.length_place_lt hplace)
    · exact ih hplace (fun entry hentry ↦ hentries entry (List.mem_cons_of_mem _ hentry)) hdepth
        line hline
  | @directory depth entry rest below lines hkind hbelow hrest ihBelow ih =>
    obtain ⟨index, hindex⟩ :=
      (exists_entry_iff hplace).mp ⟨entry, hentries entry List.mem_cons_self, rfl⟩
    rw [hkind] at hindex
    intro line hline
    rw [List.mem_cons, List.mem_append, List.mem_map] at hline
    obtain rfl | ⟨lower, hlower, rfl⟩ | hline := hline
    · exact Nat.lt_of_le_of_lt hdepth (hsound.length_place_lt hplace)
    · exact ihBelow hindex (fun _ hentry ↦ hentry) (Nat.succ_le_succ hdepth) lower hlower
    · exact ih hplace (fun entry hentry ↦ hentries entry (List.mem_cons_of_mem _ hentry)) hdepth
        line hline

end Image.Preorder

/-! ## The walk -/

namespace Directory

/-- The lines of an entry and of what is below it. -/
def linesOf (fuel depth : Nat) (entry : Entry) : Action (List Listed) := do
  let line := Listed.ofEntry depth entry
  if entry.isDirectory then
    let nested ← load entry.sector.toNat
    let below ← treeWithin fuel nested (← Checked.add depth 1)
    return line :: below.map (·.under line.name)
  else
    return [line]

theorem treeWithin_succ (fuel : Nat) (directory : Directory) (depth : Nat) :
    treeWithin (fuel + 1) directory depth = do
      return (← directory.entries.mapM (linesOf fuel depth)).flatten := rfl

/-- On a sound image the walk ends and gives the lines in preorder. -/
theorem treeWithin_performs (h : image.Sound sectors) {fuel depth : Nat} {place : Place}
    {sector : Nat} (hplace : image.targetAt place = some ⟨sector, true⟩)
    (hfuel : sectors < place.length + fuel) (hdepth : depth ≤ place.length) :
    ∃ lines, Performs (treeWithin fuel (image.table sector) depth) image sectors (.ok lines) [] ∧
      image.Preorder depth (image.table sector).entries lines := by
  induction fuel generalizing place sector depth with
  | zero => exact absurd (h.length_place_lt hplace) (by omega)
  | succ fuel ih =>
    have hloop (entries : List Entry) (hall : ∀ entry ∈ entries, entry ∈ (image.table sector).entries) :
        ∃ groups, Performs (entries.mapM (linesOf fuel depth)) image sectors (.ok groups) [] ∧
          image.Preorder depth entries groups.flatten := by
      induction entries with
      | nil => exact ⟨[], Performs.pure [], .nil depth⟩
      | cons entry rest ihRest =>
        obtain ⟨groups, hgroups, hrest⟩ := ihRest fun other hother ↦
          hall other (List.mem_cons_of_mem _ hother)
        obtain ⟨index, hindex⟩ :=
          (Image.exists_entry_iff hplace).mp ⟨entry, hall entry List.mem_cons_self, rfl⟩
        rw [List.mapM_cons]
        cases hkind : entry.isDirectory with
        | false =>
          refine ⟨[Listed.ofEntry depth entry] :: groups, ?_, .file hkind hrest⟩
          refine Performs.step ?_ (hgroups.step (Performs.pure _))
          rw [linesOf, hkind]
          exact Performs.pure _
        | true =>
          rw [hkind] at hindex
          have hlength := h.length_place_lt hindex
          have hword := h.sectors_lt
          rw [List.length_cons] at hlength
          obtain ⟨below, hbelow, hlines⟩ := @ih (depth + 1) (index :: place) entry.sector.toNat hindex
            (by rw [List.length_cons]; omega) (Nat.succ_le_succ hdepth)
          refine ⟨(Listed.ofEntry depth entry :: below.map (·.under entry.shownName)) :: groups,
            Performs.step ?_ (hgroups.step (Performs.pure _)), ?_⟩
          · rw [linesOf, if_pos hkind,
              Checked.add_eq_ok (by simp only [Checked.wordLimit]; omega)]
            exact (h.load_performs hindex).step ((Performs.pure _).step
              (hbelow.step (Performs.pure _)))
          · rw [List.flatten_cons, List.cons_append]
            exact .directory hkind hlines hrest
    obtain ⟨groups, hgroups, hlines⟩ := hloop _ fun _ hentry ↦ hentry
    rw [treeWithin_succ]
    exact ⟨groups.flatten, hgroups.step (Performs.pure _), hlines⟩

end Directory

/-- A listing whose lines are not too deep has a text. -/
theorem Listed.exists_render {lines : List Listed} (marks : Bool)
    (h : ∀ line ∈ lines, line.depth < 2 ^ 32) : ∃ text, render lines marks = .ok text := by
  have hlines : ∃ texts, lines.mapM (fun line ↦ if marks then line.marked else pure line.name) =
      .ok texts := by
    induction lines with
    | nil => exact ⟨[], rfl⟩
    | cons line rest ih =>
      obtain ⟨texts, htexts⟩ := ih fun other hother ↦ h other (List.mem_cons_of_mem _ hother)
      have hdepth := h line List.mem_cons_self
      have hindent : indent line.depth =
          .ok (String.ofList (List.replicate (2 * line.depth) ' ')) :=
        if_pos (Nat.lt_trans hdepth (by decide))
      rw [List.mapM_cons, htexts]
      cases marks with
      | false => exact ⟨_, rfl⟩
      | true =>
        rw [if_pos rfl, marked, hindent]
        exact ⟨_, rfl⟩
  obtain ⟨texts, htexts⟩ := hlines
  rw [render, htexts]
  exact ⟨_, rfl⟩

/-- A directory is listed, with what is below it in preorder or without it. -/
theorem Volume.list_performs {volume : Volume} (hvolume : volume.Attached image)
    (h : image.Sound sectors) {text : String} {sector : Nat}
    (hlocate : image.locate text = .ok ⟨sector, true⟩) :
    ∃ lines, image.Preorder 0 (image.table sector).entries lines ∧
      Performs (volume.list text true) image sectors (.ok lines) [] ∧
      Performs (volume.list text false) image sectors (.ok (image.table sector).list) [] := by
  obtain ⟨place, hplace⟩ := Image.exists_place_of_locate hlocate
  have hfuel : sectors < place.length + (sectors + 2) := by omega
  obtain ⟨lines, hrun, hlines⟩ :=
    Directory.treeWithin_performs h hplace hfuel (Nat.zero_le place.length)
  have hresolve := Volume.resolve_performs hvolume h text
  rw [hlocate] at hresolve
  have hshown {listing : List Listed} (marks : Bool) (hdepth : ∀ line ∈ listing, line.depth < 2 ^ 32) :
      Performs (do
        Drive.note .debug
          ("Listing of " ++ text ++ ":\n" ++ (← Listed.render listing marks))
        return listing) image sectors (.ok listing) [] := by
    obtain ⟨shown, hrender⟩ := Listed.exists_render marks hdepth
    rw [hrender]
    exact (Performs.pure shown).step ((Performs.note _ _).step (Performs.pure listing))
  refine ⟨lines, hlines, ?_, ?_⟩
  · refine Performs.step hresolve ((h.load_performs hplace).step (Performs.step ?_
      (hshown true fun line hline ↦ ?_)))
    · exact Performs.sectorCount.step hrun
    · exact (hlines.depth_lt h hplace (fun _ hentry ↦ hentry) (Nat.zero_le _) line hline).trans
        h.sectors_lt
  · refine Performs.step hresolve ((h.load_performs hplace).step ((Performs.pure _).step
      (hshown false fun line hline ↦ ?_)))
    obtain ⟨entry, -, rfl⟩ := List.mem_map.mp hline
    exact (by decide : 0 < 2 ^ 32)

end SectorFS
