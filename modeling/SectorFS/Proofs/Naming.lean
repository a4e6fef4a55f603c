import SectorFS.Proofs.Resolution

/-!
# Names and places

A path that parses is given back by its text, so two texts never stand for the same path, and
its components fit into an entry whole. On an image a path leads to a target if and only if
its components lead to a place that has this target, and different sequences of components
that fit lead to different places, because the key of an entry determines its name.
-/

namespace SectorFS

namespace Path

variable {text other : String} {path : Path}

/-! ## Texts -/

/-- The pieces of a text with the slashes put back. -/
theorem flatMap_splitSlashes (chars : List Char) :
    (splitSlashes chars).flatMap ('/' :: ·) = '/' :: chars := by
  induction chars with
  | nil => rfl
  | cons char rest ih =>
    rw [splitSlashes]
    by_cases hslash : char = '/'
    · rw [if_pos hslash, List.flatMap_cons, ih, hslash]
      rfl
    · rw [if_neg hslash]
      cases hpieces : splitSlashes rest with
      | nil =>
        rw [hpieces] at ih
        exact nomatch ih
      | cons piece pieces =>
        rw [hpieces, List.flatMap_cons, List.cons_append, List.cons.injEq] at ih
        simp only [List.flatMap_cons, List.cons_append]
        rw [ih.2]

theorem component_eq_ok {piece : List Char} {name : String} (h : component text piece = .ok name) :
    (name ≠ "" ∧ name.utf8ByteSize ≤ nameLimit) ∧ name.toList = piece := by
  rw [component] at h
  split at h
  · contradiction
  · rename_i hpiece
    split at h
    · contradiction
    · rename_i hfits
      obtain rfl := Except.ok.inj h
      refine ⟨⟨fun hempty ↦ hpiece ?_, Nat.le_of_not_lt hfits⟩, String.toList_ofList⟩
      rw [← @String.toList_ofList piece, hempty, String.toList_empty]

theorem mapM_component_eq_ok {pieces : List (List Char)} {names : List String}
    (h : pieces.mapM (component text) = .ok names) :
    (∀ name ∈ names, name ≠ "" ∧ name.utf8ByteSize ≤ nameLimit) ∧
      names.map String.toList = pieces := by
  induction pieces generalizing names with
  | nil =>
    obtain rfl := Except.ok.inj h
    exact ⟨fun _ hname ↦ (nomatch hname), rfl⟩
  | cons piece pieces ih =>
    rw [List.mapM_cons] at h
    cases hfirst : component text piece with
    | error fault =>
      rw [hfirst] at h
      contradiction
    | ok name =>
      cases hrest : pieces.mapM (component text) with
      | error fault =>
        rw [hfirst, hrest] at h
        contradiction
      | ok rest =>
        rw [hfirst, hrest] at h
        obtain rfl := Except.ok.inj h
        obtain ⟨hfits, hname⟩ := component_eq_ok hfirst
        obtain ⟨hall, hnames⟩ := ih hrest
        refine ⟨fun found hfound ↦ ?_, by rw [List.map_cons, hname, hnames]⟩
        cases List.mem_cons.mp hfound with
        | inl heq => rw [heq]; exact hfits
        | inr hmem => exact hall found hmem

/-- What the text of a path looks like, and that its components fit into an entry. -/
theorem parse_eq_ok (h : parse text = .ok path) :
    (∀ name ∈ path.components, name.utf8ByteSize ≤ nameLimit) ∧
      text.toList = if path.components = [] then ['/'] else
        path.components.flatMap ('/' :: ·.toList) := by
  rw [parse] at h
  split at h
  · rename_i hchars
    obtain rfl := Except.ok.inj h
    exact ⟨fun _ hname ↦ (nomatch hname), hchars⟩
  · rename_i rest _ hchars
    cases hnames : (splitSlashes rest).mapM (component text) with
    | error fault =>
      rw [hnames] at h
      contradiction
    | ok names =>
      rw [hnames] at h
      obtain rfl := Except.ok.inj h
      obtain ⟨hfits, hpieces⟩ := mapM_component_eq_ok hnames
      have hsplit := flatMap_splitSlashes rest
      rw [← hpieces, List.flatMap_map] at hsplit
      refine ⟨fun name hname ↦ (hfits name hname).2, ?_⟩
      rw [hchars, ← hsplit, if_neg]
      rintro rfl
      exact nomatch hsplit
  · contradiction

theorem fits_of_parse (h : parse text = .ok path) {name : String} (hname : name ∈ path.components) :
    name.utf8ByteSize ≤ nameLimit := (parse_eq_ok h).1 name hname

/-- Different texts stand for different paths. -/
theorem parse_inj (h : parse text = .ok path) (hother : parse other = .ok path) : text = other :=
  String.toList_inj.mp ((parse_eq_ok h).2.trans (parse_eq_ok hother).2.symm)

/-- A character of a component is a character of the text. -/
theorem mem_text_of_parse (h : parse text = .ok path) {name : String} (hname : name ∈ path.components)
    {char : Char} (hchar : char ∈ name.toList) : char ∈ text.toList := by
  rw [(parse_eq_ok h).2, if_neg (List.ne_nil_of_mem hname), List.mem_flatMap]
  exact ⟨name, hname, List.mem_cons_of_mem _ hchar⟩

theorem eq_concat_of_lastName? {name : String} (h : path.lastName? = some name) :
    path.components = path.components.dropLast ++ [name] :=
  (List.dropLast_append_getLast? name h).symm

end Path

namespace Image

variable {image : Image} {sectors : Nat} {names others : List String} {name : String} {place : Place}

/-! ## Places of names -/

/-- The place of a name in the directory at a place. -/
def enter? (image : Image) (place : Place) (name : String) : Option Place :=
  match image.targetAt place with
  | some ⟨sector, true⟩ => ((image.table sector).index? name).map (· :: place)
  | _ => none

/-- The place that the names lead to from the root directory. -/
def placeOf (image : Image) (names : List String) : Option Place := names.foldlM image.enter? []

theorem placeOf_nil (image : Image) : image.placeOf [] = some [] := rfl

theorem placeOf_concat (image : Image) (names : List String) (name : String) :
    image.placeOf (names ++ [name]) = (image.placeOf names).bind (image.enter? · name) := by
  rw [placeOf, List.foldlM_append, placeOf, ← Option.bind_eq_bind]
  congr 1
  funext place
  rw [List.foldlM_cons]
  exact bind_pure (image.enter? place name)

theorem enter?_eq_some {other : Place} :
    image.enter? place name = some other ↔ ∃ sector index,
      image.targetAt place = some ⟨sector, true⟩ ∧ (image.table sector).index? name = some index ∧
        other = index :: place := by
  rw [enter?]
  constructor
  · intro h
    split at h
    · rename_i sector hplace
      obtain ⟨index, hindex, heq⟩ := Option.map_eq_some_iff.mp h
      exact ⟨sector, index, hplace, hindex, heq.symm⟩
    · contradiction
  · rintro ⟨sector, index, hplace, hindex, rfl⟩
    rw [hplace]
    dsimp only
    rw [hindex]
    rfl

theorem enter?_of_directory {sector : Nat} (h : image.targetAt place = some ⟨sector, true⟩) :
    image.enter? place name = ((image.table sector).index? name).map (· :: place) := by
  rw [enter?, h]

theorem enter?_of_not_directory (h : ∀ sector, image.targetAt place ≠ some ⟨sector, true⟩) :
    image.enter? place name = none := by
  rw [enter?]
  split
  · rename_i sector hplace
    exact absurd hplace (h sector)
  · rfl

/-- Names have a place only where something is. -/
theorem exists_target_of_placeOf (h : image.placeOf names = some place) :
    ∃ target, image.targetAt place = some target := by
  rcases List.eq_nil_or_concat names with rfl | ⟨above, name, rfl⟩
  · obtain rfl := Option.some.inj h
    exact ⟨_, image.targetAt_nil⟩
  · rw [List.concat_eq_append, placeOf_concat] at h
    obtain ⟨upper, -, henter⟩ := Option.bind_eq_some_iff.mp h
    obtain ⟨sector, index, hsector, hindex, rfl⟩ := enter?_eq_some.mp henter
    exact ⟨_, (targetAt_cons_of_directory hsector).trans (child?_of_index? hindex)⟩

/-- A path leads to what its components' place leads to. -/
theorem resolve_eq_ok {path : Path} {target : Target} :
    image.resolve path = .ok target ↔
      ∃ place, image.placeOf path.components = some place ∧ image.targetAt place = some target := by
  obtain ⟨names⟩ := path
  rw [resolve]
  dsimp only
  induction names using List.reverseRecOn generalizing target with
  | nil =>
    rw [follow, placeOf_nil]
    constructor
    · intro h
      exact ⟨[], rfl, by rw [targetAt_nil, Except.ok.inj h]⟩
    · rintro ⟨place, hplace, htarget⟩
      obtain rfl := Option.some.inj hplace
      rw [Option.some.inj htarget]
  | append_singleton names name ih =>
    rw [follow_append, placeOf_concat]
    constructor
    · intro h
      cases hfollow : image.follow ⟨rootSector, true⟩ names with
      | error cause =>
        rw [hfollow] at h
        contradiction
      | ok upper =>
        rw [hfollow] at h
        replace h : image.follow upper [name] = .ok target := h
        obtain ⟨place, hnames, hplace⟩ := ih.mp hfollow
        obtain ⟨sector, isDirectory⟩ := upper
        cases isDirectory with
        | false => rw [follow, if_neg Bool.false_ne_true] at h; contradiction
        | true =>
          rw [follow_cons] at h
          split at h
          · contradiction
          · rename_i index hindex
            refine ⟨index :: place, ?_, ?_⟩
            · rw [hnames, Option.bind_some, enter?_of_directory hplace, hindex]
              rfl
            · rw [targetAt_cons_of_directory hplace, child?_of_index? hindex, ← Except.ok.inj h]
    · rintro ⟨place, hplace, htarget⟩
      obtain ⟨above, hnames, henter⟩ := Option.bind_eq_some_iff.mp hplace
      obtain ⟨sector, index, hsector, hindex, rfl⟩ := enter?_eq_some.mp henter
      have hfollow := ih.mpr ⟨above, hnames, hsector⟩
      rw [hfollow]
      show image.follow ⟨sector, true⟩ [name] = _
      rw [follow_cons, hindex]
      rw [targetAt_cons_of_directory hsector, child?_of_index? hindex] at htarget
      exact congrArg Except.ok (Option.some.inj htarget)

/-- The directory that holds the last component of a path is where the others lead. -/
theorem placeOf_of_resolveParent (h : image.Sound sectors) {path : Path} {directory : Nat}
    (hparent : image.resolveParent path = .ok directory)
    (hplace : image.targetAt place = some ⟨directory, true⟩) :
    image.placeOf path.components.dropLast = some place := by
  obtain ⟨other, hnames, hother⟩ := resolve_eq_ok.mp (resolveParent_eq_ok.mp hparent)
  rw [hnames, h.place_eq hother hplace rfl]

/-- The last name of a place is the one of its last entry. -/
theorem placeOf_eq_some_cons {index : Fin entryCount} :
    image.placeOf names = some (index :: place) ↔ ∃ above name sector, names = above ++ [name] ∧
      image.placeOf above = some place ∧ image.targetAt place = some ⟨sector, true⟩ ∧
      (image.table sector).index? name = some index := by
  constructor
  · intro h
    rcases List.eq_nil_or_concat names with rfl | ⟨above, name, rfl⟩
    · exact nomatch Option.some.inj h
    · rw [List.concat_eq_append, placeOf_concat] at h
      obtain ⟨upper, habove, henter⟩ := Option.bind_eq_some_iff.mp h
      obtain ⟨sector, found, hsector, hindex, heq⟩ := enter?_eq_some.mp henter
      obtain ⟨rfl, rfl⟩ := List.cons.inj heq
      exact ⟨above, name, sector, List.concat_eq_append, habove, hsector, hindex⟩
  · rintro ⟨above, name, sector, rfl, habove, hsector, hindex⟩
    rw [placeOf_concat, habove, Option.bind_some]
    exact enter?_eq_some.mpr ⟨sector, index, hsector, hindex, rfl⟩

theorem eq_nil_of_placeOf (h : image.placeOf names = some []) : names = [] := by
  induction names using List.reverseRecOn with
  | nil => rfl
  | append_singleton names name =>
    rw [placeOf_concat] at h
    obtain ⟨above, -, henter⟩ := Option.bind_eq_some_iff.mp h
    obtain ⟨_, _, -, -, heq⟩ := enter?_eq_some.mp henter
    exact nomatch heq

/-- Names that fit are determined by their place. -/
theorem placeOf_inj (hnames : ∀ name ∈ names, name.utf8ByteSize ≤ nameLimit)
    (hothers : ∀ name ∈ others, name.utf8ByteSize ≤ nameLimit)
    (h : image.placeOf names = some place) (hother : image.placeOf others = some place) :
    names = others := by
  induction place generalizing names others with
  | nil => rw [eq_nil_of_placeOf h, eq_nil_of_placeOf hother]
  | cons index place ih =>
    obtain ⟨above, name, sector, rfl, habove, hsector, hindex⟩ := placeOf_eq_some_cons.mp h
    obtain ⟨above', name', sector', rfl, habove', hsector', hindex'⟩ :=
      placeOf_eq_some_cons.mp hother
    obtain rfl : sector = sector' :=
      (Target.mk.inj (Option.some.inj (hsector.symm.trans hsector'))).1
    have hupper := ih (fun name hname ↦ hnames name (List.mem_append_left _ hname))
      (fun name hname ↦ hothers name (List.mem_append_left _ hname)) habove habove'
    have hfits := hnames name (List.mem_append_right _ List.mem_cons_self)
    have hfits' := hothers name' (List.mem_append_right _ List.mem_cons_self)
    have hsame : name = name' := by
      by_contra hne
      exact Directory.index_ne_of_ne hfits hfits' hindex hindex' hne rfl
    rw [hupper, hsame]

/-- The names on the way to a place lead to the places above it. -/
theorem exists_split_of_placeOf {below : Place} (h : image.placeOf names = some (below ++ place)) :
    ∃ front rest, names = front ++ rest ∧ image.placeOf front = some place := by
  induction below generalizing names with
  | nil => exact ⟨names, [], (List.append_nil names).symm, h⟩
  | cons index below ih =>
    obtain ⟨above, name, -, rfl, habove, -, -⟩ := placeOf_eq_some_cons.mp h
    obtain ⟨front, rest, rfl, hfront⟩ := ih habove
    exact ⟨front, rest ++ [name], List.append_assoc _ _ _, hfront⟩

/-- Names that go on from others lead to a place below theirs. -/
theorem suffix_of_placeOf_append {rest : List String} {other : Place}
    (h : image.placeOf names = some place) (hother : image.placeOf (names ++ rest) = some other) :
    place <:+ other := by
  induction rest using List.reverseRecOn generalizing other with
  | nil =>
    rw [List.append_nil, h] at hother
    rw [Option.some.inj hother]
  | append_singleton rest name ih =>
    rw [← List.append_assoc, placeOf_concat] at hother
    obtain ⟨above, habove, henter⟩ := Option.bind_eq_some_iff.mp hother
    obtain ⟨_, index, -, -, rfl⟩ := enter?_eq_some.mp henter
    exact (ih habove).trans (List.suffix_cons index above)

/-- A path goes on from another if and only if its place lies below. -/
theorem prefix_iff_suffix {other : Place} (hnames : ∀ name ∈ names, name.utf8ByteSize ≤ nameLimit)
    (hothers : ∀ name ∈ others, name.utf8ByteSize ≤ nameLimit)
    (h : image.placeOf names = some place) (hother : image.placeOf others = some other) :
    names <+: others ↔ place <:+ other := by
  constructor
  · rintro ⟨rest, rfl⟩
    exact suffix_of_placeOf_append h hother
  · rintro ⟨below, rfl⟩
    obtain ⟨front, rest, rfl, hfront⟩ := exists_split_of_placeOf hother
    rw [placeOf_inj hnames (fun name hname ↦ hothers name (List.mem_append_left _ hname)) h hfront]
    exact List.prefix_append front rest

/-- What a text leads to, by its place. -/
theorem locate_eq_ok {text : String} {target : Target} :
    image.locate text = .ok target ↔ ∃ path place, Path.parse text = .ok path ∧
      image.placeOf path.components = some place ∧ image.targetAt place = some target := by
  rw [locate]
  cases hparse : Path.parse text with
  | error fault => simp
  | ok path =>
    simp only [resolve_eq_ok, Except.ok.injEq]
    constructor
    · rintro ⟨place, h⟩
      exact ⟨path, place, rfl, h⟩
    · rintro ⟨_, place, rfl, h⟩
      exact ⟨place, h⟩

end Image

end SectorFS
