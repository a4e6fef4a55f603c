import SectorFS.Proofs.Listing
import SectorFS.Proofs.Naming.Legible

/-!
# Lines and paths

On an image whose directories are legible a line of a recursive listing stands for the names
that lead to its target from the directory that is listed, and for every sequence of names
that leads somewhere there is such a line. Different lines have different paths, because
different entries of a table show different names.
-/

namespace SectorFS

variable {image : Image} {depth : Nat} {entry : Entry} {line : Listed}

/-! ## Following names in legible tables -/

namespace Image

/-- A component leads to the entry that shows it. -/
theorem follow_shown {sector : Nat} (h : (image.table sector).Legible) {name : String}
    (hname : name.utf8ByteSize ≤ nameLimit) {rest : List String} {target : Target} :
    image.follow ⟨sector, true⟩ (name :: rest) = .ok target ↔
      ∃ entry ∈ (image.table sector).entries, entry.shownName = name ∧
        image.follow ⟨entry.sector.toNat, entry.isDirectory⟩ rest = .ok target := by
  rw [follow_cons]
  constructor
  · intro hfollow
    split at hfollow
    · contradiction
    · rename_i index hindex
      obtain ⟨hused, hshown⟩ := (h.index?_eq_some_iff hname).mp hindex
      exact ⟨_, Directory.mem_entries.mpr ⟨index, rfl, hused⟩, hshown, hfollow⟩
  · rintro ⟨entry, hentry, hshown, hfollow⟩
    obtain ⟨index, rfl, hused⟩ := Directory.mem_entries.mp hentry
    rw [(h.index?_eq_some_iff hname).mpr ⟨hused, hshown⟩]
    exact hfollow

end Image

/-- An entry of a legible table shows a component. -/
theorem Directory.Legible.isPlain_shownName {directory : Directory} (h : directory.Legible)
    (hentry : entry ∈ directory.entries) : Path.IsPlain entry.shownName := by
  obtain ⟨index, rfl, hused⟩ := mem_entries.mp hentry
  exact (h.shown hused).1

/-- The entries of a legible table show different names. -/
theorem Directory.Legible.pairwise_shownName {directory : Directory} (h : directory.Legible) :
    directory.entries.Pairwise fun entry other ↦ entry.shownName ≠ other.shownName := by
  rw [entries, List.pairwise_filter, List.pairwise_iff_getElem]
  intro index place hindex hplace hlt hused hother hshown
  rw [Vector.length_toList] at hindex hplace
  have hsame := @index_eq directory ⟨index, hindex⟩ ⟨place, hplace⟩ h hused hother hshown
  exact absurd (Fin.mk.inj hsame) (Nat.ne_of_lt hlt)

/-! ## The line of a path -/

/-- The line of what some names lead to from an entry of a directory at a depth. -/
def Listed.ofNames (depth : Nat) (first : String) (rest : List String) (target : Target) : Listed :=
  ⟨depth + rest.length, rest.getLastD first, String.intercalate "/" (first :: rest),
    target.isDirectory, target.sector⟩

namespace Listed

theorem ofNames_nil (depth : Nat) (entry : Entry) :
    ofNames depth entry.shownName [] ⟨entry.sector.toNat, entry.isDirectory⟩ =
      ofEntry depth entry := by
  rw [ofNames, String.intercalate_singleton]
  rfl

theorem under_ofNames (depth : Nat) (parent first : String) (rest : List String) (target : Target) :
    (ofNames (depth + 1) first rest target).under parent =
      ofNames depth parent (first :: rest) target := by
  rw [under, ofNames, ofNames, String.intercalate_cons_cons, List.length_cons,
    Nat.add_right_comm, Nat.add_assoc, List.getLastD_cons]

/-- The path of a line is the text of its names without the leading slash. -/
theorem path_ofNames (depth : Nat) (first : String) (rest : List String) (target : Target) :
    "/" ++ (ofNames depth first rest target).path = Path.toText ⟨first :: rest⟩ := by
  rw [ofNames]
  induction rest generalizing first with
  | nil => rw [String.intercalate_singleton, Path.toText_singleton]
  | cons next rest ih =>
    rw [Path.toText_cons (List.cons_ne_nil _ _), ← ih next, String.intercalate_cons_cons]
    simp only [String.append_assoc]

/-- The line is the entry's own or one of something below it. -/
def Belongs (image : Image) (depth : Nat) (entry : Entry) (line : Listed) : Prop :=
  ∃ names target, (∀ name ∈ names, Path.IsComponent name) ∧
    image.follow ⟨entry.sector.toNat, entry.isDirectory⟩ names = .ok target ∧
    line = ofNames depth entry.shownName names target

theorem belongs_of_file (hkind : entry.isDirectory = false) :
    line.Belongs image depth entry ↔ line = ofEntry depth entry := by
  constructor
  · rintro ⟨names, target, -, hfollow, rfl⟩
    rw [hkind, Image.follow_file] at hfollow
    obtain ⟨rfl, rfl⟩ := hfollow
    rw [← ofNames_nil, hkind]
  · rintro rfl
    exact ⟨[], _, fun _ hname ↦ absurd hname List.not_mem_nil, rfl, (ofNames_nil depth entry).symm⟩

theorem belongs_of_directory (hkind : entry.isDirectory = true)
    (hlegible : (image.table entry.sector.toNat).Legible) :
    line.Belongs image depth entry ↔ line = ofEntry depth entry ∨
      ∃ other ∈ (image.table entry.sector.toNat).entries, ∃ lower,
        Belongs image (depth + 1) other lower ∧ line = lower.under entry.shownName := by
  constructor
  · rintro ⟨names, target, hnames, hfollow, rfl⟩
    cases names with
    | nil =>
      obtain rfl := Except.ok.inj hfollow
      exact .inl (ofNames_nil depth entry)
    | cons name rest =>
      rw [hkind, Image.follow_shown hlegible (hnames name List.mem_cons_self).fits] at hfollow
      obtain ⟨other, hother, rfl, hrest⟩ := hfollow
      refine .inr ⟨other, hother, _, ⟨rest, target, fun name hname ↦
        hnames name (List.mem_cons_of_mem _ hname), hrest, rfl⟩, ?_⟩
      rw [under_ofNames]
  · rintro (rfl | ⟨other, hother, lower, ⟨rest, target, hrest, hfollow, rfl⟩, rfl⟩)
    · exact ⟨[], _, fun _ hname ↦ absurd hname List.not_mem_nil, rfl,
        (ofNames_nil depth entry).symm⟩
    · have hshown := hlegible.isPlain_shownName hother
      refine ⟨other.shownName :: rest, target, fun name hname ↦ ?_, ?_, under_ofNames _ _ _ _ _⟩
      · rcases List.mem_cons.mp hname with rfl | hname
        · exact hshown.toIsComponent
        · exact hrest name hname
      · rw [hkind, Image.follow_shown hlegible hshown.fits]
        exact ⟨other, hother, rfl, hfollow⟩

/-- Lines of entries that show different names have different paths. -/
theorem Belongs.path_ne {other : Entry} {depth' : Nat} {line' : Listed}
    (h : line.Belongs image depth entry) (h' : line'.Belongs image depth' other)
    (hentry : Path.IsComponent entry.shownName) (hother : Path.IsComponent other.shownName)
    (hne : entry.shownName ≠ other.shownName) : line.path ≠ line'.path := by
  obtain ⟨names, target, hnames, -, rfl⟩ := h
  obtain ⟨names', target', hnames', -, rfl⟩ := h'
  intro hpath
  have htext := congrArg ("/" ++ ·) hpath
  simp only [path_ofNames] at htext
  have hparse := @Path.parse_toText ⟨entry.shownName :: names⟩ fun name hname ↦
    (List.mem_cons.mp hname).elim (fun heq ↦ heq ▸ hentry) (hnames name)
  rw [htext, @Path.parse_toText ⟨other.shownName :: names'⟩ fun name hname ↦
    (List.mem_cons.mp hname).elim (fun heq ↦ heq ▸ hother) (hnames' name)] at hparse
  exact hne (List.cons.inj (Path.mk.inj (Except.ok.inj hparse))).1.symm

end Listed

/-! ## All lines -/

namespace Image.Preorder

variable {entries : List Entry} {lines : List Listed} {place : Place} {sector : Nat}

/-- The lines are those that belong to the entries. -/
theorem mem_iff (h : image.Preorder depth entries lines) (hlegible : image.Legible)
    (hplace : image.targetAt place = some ⟨sector, true⟩)
    (hentries : ∀ entry ∈ entries, entry ∈ (image.table sector).entries) {line : Listed} :
    line ∈ lines ↔ ∃ entry ∈ entries, line.Belongs image depth entry := by
  induction h generalizing place sector line with
  | nil depth => simp
  | @file depth entry rest lines hkind hrest ih =>
    rw [List.mem_cons, List.exists_mem_cons_iff, Listed.belongs_of_file hkind,
      ih hplace fun other hother ↦ hentries other (List.mem_cons_of_mem _ hother)]
  | @directory depth entry rest below lines hkind hbelow hrest ihBelow ih =>
    obtain ⟨index, hindex⟩ :=
      (exists_entry_iff hplace).mp ⟨entry, hentries entry List.mem_cons_self, rfl⟩
    rw [hkind] at hindex
    rw [List.mem_cons, List.mem_append, List.mem_map, List.exists_mem_cons_iff,
      Listed.belongs_of_directory hkind (hlegible _ _ hindex),
      ih hplace fun other hother ↦ hentries other (List.mem_cons_of_mem _ hother), or_assoc]
    refine or_congr_right (or_congr_left ⟨?_, ?_⟩)
    · rintro ⟨lower, hlower, rfl⟩
      obtain ⟨other, hother, hbelongs⟩ := (ihBelow hindex fun _ hother ↦ hother).mp hlower
      exact ⟨other, hother, lower, hbelongs, rfl⟩
    · rintro ⟨other, hother, lower, hbelongs, rfl⟩
      exact ⟨lower, (ihBelow hindex fun _ hother ↦ hother).mpr ⟨other, hother, hbelongs⟩, rfl⟩

/-- What belongs to an entry has none of the paths of its siblings. -/
theorem path_not_mem {rest : List Entry} (h : image.Preorder depth rest lines)
    (hlegible : image.Legible) (hplace : image.targetAt place = some ⟨sector, true⟩)
    (hentries : ∀ other ∈ entry :: rest, other ∈ (image.table sector).entries)
    (hfirst : ∀ other ∈ rest, entry.shownName ≠ other.shownName)
    (hbelongs : line.Belongs image depth entry) : line.path ∉ lines.map (·.path) := by
  intro hmem
  obtain ⟨found, hfound, hpath⟩ := List.mem_map.mp hmem
  obtain ⟨other, hother, hfoundBelongs⟩ := (h.mem_iff hlegible hplace fun other hother ↦
    hentries other (List.mem_cons_of_mem _ hother)).mp hfound
  have hshown {other : Entry} (hother : other ∈ entry :: rest) : Path.IsComponent other.shownName :=
    ((hlegible place sector hplace).isPlain_shownName (hentries other hother)).toIsComponent
  exact hbelongs.path_ne hfoundBelongs (hshown List.mem_cons_self)
    (hshown (List.mem_cons_of_mem _ hother)) (hfirst other hother) hpath.symm

/-- No path occurs twice. -/
theorem nodup_path (h : image.Preorder depth entries lines) (hlegible : image.Legible)
    (hplace : image.targetAt place = some ⟨sector, true⟩)
    (hentries : ∀ entry ∈ entries, entry ∈ (image.table sector).entries)
    (hdistinct : entries.Pairwise fun entry other ↦ entry.shownName ≠ other.shownName) :
    (lines.map (·.path)).Nodup := by
  induction h generalizing place sector with
  | nil depth => exact List.nodup_nil
  | @file depth entry rest lines hkind hrest ih =>
    obtain ⟨hfirst, hothers⟩ := List.pairwise_cons.mp hdistinct
    rw [List.map_cons, List.nodup_cons]
    exact ⟨hrest.path_not_mem hlegible hplace hentries hfirst ((Listed.belongs_of_file hkind).mpr rfl),
      ih hplace (fun other hother ↦ hentries other (List.mem_cons_of_mem _ hother)) hothers⟩
  | @directory depth entry rest below lines hkind hbelow hrest ihBelow ih =>
    obtain ⟨hfirst, hothers⟩ := List.pairwise_cons.mp hdistinct
    obtain ⟨index, hindex⟩ :=
      (exists_entry_iff hplace).mp ⟨entry, hentries entry List.mem_cons_self, rfl⟩
    rw [hkind] at hindex
    have htable := hlegible _ _ hindex
    have hbelongs (line : Listed) :=
      @Listed.belongs_of_directory image depth entry line hkind htable
    have hself : entry.shownName ∉ (below.map (·.under entry.shownName)).map (·.path) := by
      intro hmem
      simp only [List.mem_map, Listed.under] at hmem
      obtain ⟨_, ⟨lower, -, rfl⟩, hpath⟩ := hmem
      -- The path below has more characters than the name of the directory.
      have hlength := congrArg String.length hpath
      simp only [String.length_append] at hlength
      have hslash : "/".length = 1 := rfl
      omega
    have hbelowNodup : ((below.map (·.under entry.shownName)).map (·.path)).Nodup := by
      have hpaths := ihBelow hindex (fun _ hother ↦ hother) htable.pairwise_shownName
      have hprefixed := hpaths.map (f := (entry.shownName ++ "/" ++ ·)) fun left right hsame ↦
        (String.append_right_inj _).mp hsame
      rwa [List.map_map] at hprefixed ⊢
    rw [List.map_cons, List.map_append, List.nodup_cons, List.mem_append, not_or,
      List.nodup_append]
    refine ⟨⟨hself, hrest.path_not_mem hlegible hplace hentries hfirst ((hbelongs _).mpr (.inl rfl))⟩,
      hbelowNodup, ih hplace (fun other hother ↦ hentries other (List.mem_cons_of_mem _ hother))
        hothers, fun path hpath other hother heq ↦ ?_⟩
    simp only [List.mem_map] at hpath
    obtain ⟨_, ⟨lower, hlower, rfl⟩, rfl⟩ := hpath
    obtain ⟨nested, hnested, hlowerBelongs⟩ :=
      (hbelow.mem_iff hlegible hindex fun _ hother ↦ hother).mp hlower
    refine hrest.path_not_mem hlegible hplace hentries hfirst
      ((hbelongs _).mpr (.inr ⟨nested, hnested, lower, hlowerBelongs, rfl⟩)) ?_
    rw [heq]
    exact hother

end Image.Preorder

end SectorFS
