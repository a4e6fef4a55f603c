import SectorFS.Proofs.Naming

/-!
# Which texts are paths

A text parses if and only if it is the text of a path whose components have at least one
byte, no slash and no more bytes than an entry keeps. So the texts that parse and the paths
with such components are the same thing, and putting a relative path behind the text of a
directory gives the text of the path that goes on there.
-/

namespace SectorFS.Path

/-- What the parser takes for a component. -/
structure IsComponent (name : String) : Prop where
  ne_empty : name ≠ ""
  no_slash : '/' ∉ name.toList
  fits : name.utf8ByteSize ≤ nameLimit

variable {text below : String} {path rest : Path} {name : String} {names : List String}

/-! ## Pieces between slashes -/

theorem splitSlashes_ne_nil (chars : List Char) : splitSlashes chars ≠ [] := by
  intro hnil
  have hall := flatMap_splitSlashes chars
  rw [hnil] at hall
  contradiction

theorem not_mem_of_mem_splitSlashes {chars piece : List Char} (h : piece ∈ splitSlashes chars) :
    '/' ∉ piece := by
  induction chars generalizing piece with
  | nil =>
    rw [splitSlashes, List.mem_singleton] at h
    rw [h]
    exact List.not_mem_nil
  | cons char rest ih =>
    rw [splitSlashes] at h
    by_cases hslash : char = '/'
    · rw [if_pos hslash, List.mem_cons] at h
      rcases h with rfl | h
      · exact List.not_mem_nil
      · exact ih h
    · rw [if_neg hslash] at h
      cases hpieces : splitSlashes rest with
      | nil => exact absurd hpieces (splitSlashes_ne_nil rest)
      | cons first pieces =>
        rw [hpieces] at h ih
        rcases List.mem_cons.mp h with rfl | hmem
        · rw [List.mem_cons, not_or]
          exact ⟨fun heq ↦ hslash heq.symm, ih List.mem_cons_self⟩
        · exact ih (List.mem_cons_of_mem _ hmem)

theorem splitSlashes_of_not_mem {piece : List Char} (h : '/' ∉ piece) :
    splitSlashes piece = [piece] := by
  induction piece with
  | nil => rfl
  | cons char piece ih =>
    rw [List.mem_cons, not_or] at h
    rw [splitSlashes, if_neg fun heq ↦ h.1 heq.symm, ih h.2]

theorem splitSlashes_append_slash {piece : List Char} (h : '/' ∉ piece) (chars : List Char) :
    splitSlashes (piece ++ '/' :: chars) = piece :: splitSlashes chars := by
  induction piece with
  | nil => rw [List.nil_append, splitSlashes, if_pos rfl]
  | cons char piece ih =>
    rw [List.mem_cons, not_or] at h
    rw [List.cons_append, splitSlashes, if_neg fun heq ↦ h.1 heq.symm, ih h.2]

/-- Pieces without slashes are found again. -/
theorem splitSlashes_flatMap {piece : List Char} {pieces : List (List Char)} (h : '/' ∉ piece)
    (hpieces : ∀ other ∈ pieces, '/' ∉ other) :
    splitSlashes (piece ++ pieces.flatMap ('/' :: ·)) = piece :: pieces := by
  induction pieces generalizing piece with
  | nil => rw [List.flatMap_nil, List.append_nil, splitSlashes_of_not_mem h]
  | cons next pieces ih =>
    rw [List.flatMap_cons, List.cons_append, splitSlashes_append_slash h,
      ih (hpieces next List.mem_cons_self) fun other hother ↦
        hpieces other (List.mem_cons_of_mem _ hother)]

/-! ## Texts of paths -/

theorem toList_toText (path : Path) : path.toText.toList =
    if path.components = [] then ['/'] else path.components.flatMap ('/' :: ·.toList) := by
  rw [toText]
  split
  · rfl
  · rw [String.toList_join, List.flatMap_map]
    exact congrArg path.components.flatMap (funext fun name ↦ String.toList_append)

theorem component_of_isComponent (h : IsComponent name) :
    component text name.toList = .ok name := by
  have hnil : name.toList ≠ [] := fun hnil ↦ h.ne_empty (String.toList_eq_nil_iff.mp hnil)
  rw [component, String.ofList_toList, if_neg hnil, if_neg (Nat.not_lt.mpr h.fits)]

theorem mapM_component (hnames : ∀ name ∈ names, IsComponent name) :
    (names.map String.toList).mapM (component text) = .ok names := by
  induction names with
  | nil => rfl
  | cons name names ih =>
    rw [List.map_cons, List.mapM_cons, component_of_isComponent (hnames name List.mem_cons_self),
      ih fun other hother ↦ hnames other (List.mem_cons_of_mem _ hother)]
    rfl

/-- The text of a path with proper components is parsed back. -/
theorem parse_toText (h : ∀ name ∈ path.components, IsComponent name) :
    parse path.toText = .ok path := by
  obtain ⟨names⟩ := path
  rw [parse, toList_toText]
  cases names with
  | nil => rfl
  | cons name names =>
    have hslash (other : String) (hother : other ∈ names) : '/' ∉ other.toList :=
      (h other (List.mem_cons_of_mem _ hother)).no_slash
    have hsplit := @splitSlashes_flatMap name.toList (names.map String.toList)
      (h name List.mem_cons_self).no_slash fun piece hpiece ↦ by
        obtain ⟨other, hother, rfl⟩ := List.mem_map.mp hpiece
        exact hslash other hother
    rw [List.flatMap_map] at hsplit
    have hfirst : name.toList ≠ [] := fun hnil ↦
      (h name List.mem_cons_self).ne_empty (String.toList_eq_nil_iff.mp hnil)
    rw [if_neg (List.cons_ne_nil _ _), List.flatMap_cons, List.cons_append]
    split
    · rename_i hroot
      rw [List.cons.injEq] at hroot
      exact absurd (List.append_eq_nil_iff.mp hroot.2).1 hfirst
    · rename_i chars _ hchars
      obtain ⟨-, rfl⟩ := List.cons.inj hchars
      rw [hsplit, ← List.map_cons, mapM_component h]
      rfl
    · rename_i _ hnot
      exact absurd rfl (hnot _)

/-- The components that the parser gives are proper. -/
theorem isComponent_of_parse (h : parse text = .ok path) {name : String}
    (hname : name ∈ path.components) : IsComponent name := by
  rw [parse] at h
  split at h
  · obtain rfl := Except.ok.inj h
    contradiction
  · rename_i chars _ _
    cases hnames : (splitSlashes chars).mapM (component text) with
    | error fault =>
      rw [hnames] at h
      contradiction
    | ok names =>
      rw [hnames] at h
      obtain rfl := Except.ok.inj h
      obtain ⟨hall, hpieces⟩ := mapM_component_eq_ok hnames
      have hpiece : name.toList ∈ splitSlashes chars := by
        rw [← hpieces]
        exact List.mem_map_of_mem hname
      exact ⟨(hall name hname).1, not_mem_of_mem_splitSlashes hpiece, (hall name hname).2⟩
  · contradiction

/-- The texts that parse are those of the paths with proper components. -/
theorem parse_eq_ok_iff :
    parse text = .ok path ↔ path.toText = text ∧ ∀ name ∈ path.components, IsComponent name := by
  constructor
  · intro h
    refine ⟨?_, fun name hname ↦ isComponent_of_parse h hname⟩
    rw [← String.toList_inj, toList_toText, (parse_eq_ok h).2]
  · rintro ⟨rfl, h⟩
    exact parse_toText h

/-! ## Going on from a directory -/

/-- The text of a path with a relative path put behind it. -/
def extend (text below : String) : String :=
  if text = "/" then "/" ++ below else text ++ "/" ++ below

theorem parse_root : parse "/" = .ok ⟨[]⟩ := rfl

theorem toText_singleton (name : String) : toText ⟨[name]⟩ = "/" ++ name := by
  rw [← String.toList_inj, toList_toText, String.toList_append]
  simp

/-- The text of a path below a directory, seen from the directory above. -/
theorem toText_cons (hnames : names ≠ []) :
    toText ⟨name :: names⟩ = "/" ++ name ++ toText ⟨names⟩ := by
  rw [← String.toList_inj, String.toList_append, String.toList_append, toList_toText,
    toList_toText, if_neg (List.cons_ne_nil _ _), if_neg hnames]
  simp

/-- A relative path goes on where the path before it leads. -/
theorem parse_extend (h : parse text = .ok path) (hbelow : parse ("/" ++ below) = .ok rest)
    (hrest : rest.components ≠ []) :
    parse (extend text below) = .ok ⟨path.components ++ rest.components⟩ := by
  obtain ⟨rfl, hpath⟩ := parse_eq_ok_iff.mp h
  obtain ⟨htext, hnames⟩ := parse_eq_ok_iff.mp hbelow
  refine parse_eq_ok_iff.mpr ⟨?_, fun name hname ↦ (List.mem_append.mp hname).elim
    (hpath name) (hnames name)⟩
  obtain ⟨names⟩ := path
  cases names with
  | nil => exact htext
  | cons name names =>
    have hne : toText ⟨name :: names⟩ ≠ "/" := by
      intro heq
      rw [heq, parse_root, Except.ok.injEq, mk.injEq] at h
      contradiction
    rw [extend, if_neg hne, String.append_assoc, ← htext, ← String.toList_inj,
      String.toList_append, toList_toText, toList_toText, toList_toText]
    dsimp only
    rw [if_neg hrest, List.cons_append, if_neg (List.cons_ne_nil _ _),
      if_neg (List.cons_ne_nil _ _), ← List.cons_append, List.flatMap_append]

end SectorFS.Path
