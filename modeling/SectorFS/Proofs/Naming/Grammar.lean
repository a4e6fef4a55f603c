import SectorFS.Proofs.Naming.Texts
import SectorFS.Volume.Creation

/-!
# The grammar of path texts

Byte for byte, the text of a path is a single slash, or one or more groups of bytes with a slash
before each. The parser works on characters, and finds the same groups: a slash is one byte, and no
other character has that byte in its encoding, so the bytes between two slashes are always those of
whole characters. A group is measured in bytes, so that one of eleven characters can be too long.

A path that was parsed is given back by its text, and so is every path above it. Each step upwards
drops the last component, and the last step ends at the root, above which there is nothing.
-/

namespace SectorFS

/-! ## Bytes of a text -/

namespace Text.Utf8

/-- The byte of a slash. -/
def slash : UInt8 := 0x2F

theorem slash_mem_encode {chars : List Char} : slash ∈ encode chars ↔ '/' ∈ chars := by
  rw [encode, List.mem_flatMap]
  constructor
  · rintro ⟨char, hchar, hbyte⟩
    have hvalue := toNat_of_mem_utf8EncodeChar (by decide) hbyte
    obtain rfl : '/' = char := Char.ext (UInt32.toNat_inj.mp hvalue)
    exact hchar
  · intro h
    exact ⟨'/', h, by decide⟩

/-- The bytes of pieces with a slash before each. -/
theorem encode_flatMap_slash (pieces : List (List Char)) :
    encode (pieces.flatMap ('/' :: ·)) = (pieces.map encode).flatMap (slash :: ·) := by
  have hslash : String.utf8EncodeChar '/' = [slash] := by decide
  rw [encode, List.flatMap_assoc, List.flatMap_map]
  simp only [List.flatMap_cons, hslash, List.singleton_append]
  rfl

end Text.Utf8

/-! ## Groups between separators -/

section Groups

variable {α : Type} [DecidableEq α] {separator : α} {group : List α}

theorem takeWhile_group (h : separator ∉ group) (rest : List (List α)) :
    (group ++ rest.flatMap (separator :: ·)).takeWhile (· ≠ separator) = group := by
  rw [List.takeWhile_append_of_pos fun item hitem ↦ by
    simpa using fun heq : item = separator ↦ h (heq ▸ hitem)]
  cases rest with
  | nil => exact List.append_nil group
  | cons next rest =>
    rw [List.flatMap_cons, List.cons_append, List.takeWhile_cons_of_neg (by simp), List.append_nil]

/-- Groups without a separator are found again between the separators. -/
theorem flatMap_separator_inj {left right : List (List α)}
    (hleft : ∀ group ∈ left, separator ∉ group) (hright : ∀ group ∈ right, separator ∉ group)
    (h : left.flatMap (separator :: ·) = right.flatMap (separator :: ·)) : left = right := by
  induction left generalizing right with
  | nil =>
    cases right with
    | nil => rfl
    | cons other right => exact nomatch h
  | cons group left ih =>
    cases right with
    | nil => exact nomatch h
    | cons other right =>
      rw [List.flatMap_cons, List.flatMap_cons, List.cons_append, List.cons_append,
        List.cons.injEq] at h
      have hfirst := congrArg (List.takeWhile (· ≠ separator)) h.2
      rw [takeWhile_group (hleft group List.mem_cons_self),
        takeWhile_group (hright other List.mem_cons_self)] at hfirst
      rw [hfirst, List.append_cancel_left_eq] at h
      rw [hfirst, ih (fun group hgroup ↦ hleft group (List.mem_cons_of_mem _ hgroup))
        (fun other hother ↦ hright other (List.mem_cons_of_mem _ hother)) h.2]

end Groups

namespace Path

open Text.Utf8 (encode slash)

variable {text : String} {path higher : Path}

/-! ## The grammar -/

/-- What can stand between two slashes: at least one byte, no more than an entry keeps, and no
slash among them. -/
structure IsGroup (group : List UInt8) : Prop where
  pos : 0 < group.length
  fits : group.length ≤ nameLimit
  no_slash : slash ∉ group

/-- The texts of paths: a single slash, or groups with a slash before each. -/
def Grammatical (text : String) : Prop :=
  text = "/" ∨ ∃ groups : List (List UInt8), groups ≠ [] ∧ (∀ group ∈ groups, IsGroup group) ∧
    encode text.toList = groups.flatMap (slash :: ·)

/-- Components and groups are the same thing. -/
theorem isComponent_iff_isGroup {name : String} :
    IsComponent name ↔ IsGroup (encode name.toList) := by
  have hlength := Text.Utf8.length_encode_toList name
  constructor
  · rintro ⟨hempty, hslash, hfits⟩
    refine ⟨Nat.pos_of_ne_zero fun hzero ↦ hempty ?_, hlength ▸ hfits,
      fun hmem ↦ hslash (Text.Utf8.slash_mem_encode.mp hmem)⟩
    rwa [hlength, String.utf8ByteSize_eq_zero_iff] at hzero
  · rintro ⟨hpos, hfits, hslash⟩
    refine ⟨?_, fun hmem ↦ hslash (Text.Utf8.slash_mem_encode.mpr hmem), hlength ▸ hfits⟩
    rintro rfl
    exact absurd hpos (Nat.lt_irrefl 0)

/-- The text of a path with proper components follows the grammar. -/
theorem grammatical_of_parse (h : parse text = .ok path) : Grammatical text := by
  obtain ⟨rfl, hnames⟩ := parse_eq_ok_iff.mp h
  by_cases hroot : path.components = []
  · left
    rw [toText, if_pos hroot]
  · right
    refine ⟨path.components.map (encode ·.toList), by simpa using hroot, fun group hgroup ↦ ?_, ?_⟩
    · obtain ⟨name, hname, rfl⟩ := List.mem_map.mp hgroup
      exact isComponent_iff_isGroup.mp (hnames name hname)
    · have hencode := Text.Utf8.encode_flatMap_slash (path.components.map String.toList)
      rw [List.flatMap_map, List.map_map] at hencode
      rw [toList_toText, if_neg hroot]
      exact hencode

/-- The groups of a text are the bytes of its pieces, as both lie between the same slashes. -/
theorem map_encode_splitSlashes {groups : List (List UInt8)} {chars : List Char}
    (hgroups : ∀ group ∈ groups, slash ∉ group)
    (h : encode chars = groups.flatMap (slash :: ·)) :
    (splitSlashes chars).map encode = [] :: groups := by
  have hslash : String.utf8EncodeChar '/' = [slash] := by decide
  refine @flatMap_separator_inj _ _ slash _ _ (fun group hgroup ↦ ?_) (fun group hgroup ↦ ?_) ?_
  · obtain ⟨piece, hpiece, rfl⟩ := List.mem_map.mp hgroup
    exact fun hmem ↦ not_mem_of_mem_splitSlashes hpiece (Text.Utf8.slash_mem_encode.mp hmem)
  · rcases List.mem_cons.mp hgroup with rfl | hgroup
    · exact List.not_mem_nil
    · exact hgroups group hgroup
  · rw [← Text.Utf8.encode_flatMap_slash, flatMap_splitSlashes, Text.Utf8.encode_cons, hslash, h]
    rfl

/-- A text that follows the grammar is that of a path with proper components. -/
theorem exists_path_of_grammatical (h : Grammatical text) : ∃ path, parse text = .ok path := by
  rcases h with rfl | ⟨groups, hne, hgroups, htext⟩
  · exact ⟨⟨[]⟩, parse_root⟩
  · have hpieces :=
      map_encode_splitSlashes (fun group hgroup ↦ (hgroups group hgroup).no_slash) htext
    have hjoin := flatMap_splitSlashes text.toList
    obtain ⟨first, pieces, hsplit, hfirst, rfl⟩ := List.map_eq_cons_iff.mp hpieces
    obtain rfl : first = [] := Text.Utf8.encode_inj hfirst
    rw [hsplit, List.flatMap_cons, List.cons_append, List.nil_append, List.cons.injEq] at hjoin
    refine ⟨⟨pieces.map String.ofList⟩, parse_eq_ok_iff.mpr ⟨?_, fun name hname ↦ ?_⟩⟩
    · rw [← String.toList_inj, toList_toText, if_neg (by simpa using hne), ← hjoin.2,
        List.flatMap_map]
      simp only [String.toList_ofList]
    · obtain ⟨piece, hpiece, rfl⟩ := List.mem_map.mp hname
      rw [isComponent_iff_isGroup, String.toList_ofList]
      exact hgroups _ (List.mem_map_of_mem hpiece)

theorem parse_isOk_iff : (∃ path, parse text = .ok path) ↔ Grammatical text :=
  ⟨fun ⟨_, h⟩ ↦ grammatical_of_parse h, exists_path_of_grammatical⟩

/-! ## Upwards -/

/-- The path so many steps up, unless there are not so many. -/
def above : Nat → Path → Option Path
  | 0, path => some path
  | steps + 1, path => path.parent?.bind (above steps)

/-- Where a path has a component, the path one level up has all but the last one. -/
theorem parent?_eq_some (h : path.components ≠ []) :
    path.parent? = some ⟨path.components.dropLast⟩ := by
  rw [parent?, isRoot, if_neg (by simpa using h)]

/-- A step up takes one component away. -/
theorem above_eq_some_iff {steps : Nat} : path.above steps = some higher ↔
    steps ≤ path.depth ∧ higher = ⟨path.components.take (path.depth - steps)⟩ := by
  obtain ⟨names⟩ := path
  simp only [depth]
  induction steps generalizing names with
  | zero =>
    simp only [above, Option.some.injEq, Nat.zero_le, true_and, Nat.sub_zero, List.take_length]
    exact eq_comm
  | succ steps ih =>
    rw [above]
    by_cases hroot : names = []
    · subst hroot
      simp [parent?, isRoot]
    · have hpos : 0 < names.length := List.length_pos_of_ne_nil hroot
      rw [parent?_eq_some hroot, Option.bind_some, ih, List.length_dropLast, List.dropLast_eq_take,
        List.take_take, Nat.min_eq_left (by omega), Nat.sub_sub, Nat.add_comm 1]
      dsimp only
      exact and_congr_left fun _ ↦ by omega

/-- What holds of a path and of all paths above it: each is given back by its text, and each but the
root is one component longer than the path one level up. -/
structure ReadsBack (path : Path) : Prop where
  parse_toText : ∀ steps higher, path.above steps = some higher →
    parse higher.toText = .ok higher
  parent : ∀ steps higher, path.above steps = some higher → higher ≠ root →
    ∃ upper name, higher.parent? = some upper ∧ higher.lastName? = some name ∧
      higher.components = upper.components ++ [name] ∧ higher.depth = upper.depth + 1
  top : path.above path.depth = some root ∧ root.toText = "/" ∧ root.parent? = none
  ancestors : ∀ steps, path.ancestors[steps]? = path.above (steps + 1)

theorem ancestors_eq (path : Path) (steps : Nat) :
    path.ancestors[steps]? = path.above (steps + 1) := by
  rw [ancestors, List.getElem?_map]
  by_cases hsteps : steps < path.depth
  · rw [List.getElem?_range hsteps, Option.map_some, eq_comm, above_eq_some_iff]
    exact ⟨hsteps, by rw [Nat.sub_sub, Nat.add_comm 1]⟩
  · rw [List.getElem?_eq_none (by simpa using hsteps), Option.map_none, eq_comm,
      Option.eq_none_iff_forall_ne_some]
    exact fun higher habove ↦ hsteps (above_eq_some_iff.mp habove).1

/-- A path with proper components has only such paths above it. -/
theorem readsBack (h : ∀ name ∈ path.components, IsComponent name) : path.ReadsBack where
  parse_toText steps higher habove := by
    obtain ⟨-, rfl⟩ := above_eq_some_iff.mp habove
    exact Path.parse_toText fun name hname ↦ h name (List.mem_of_mem_take hname)
  parent steps higher _ hroot := by
    have hne : higher.components ≠ [] := fun hnil ↦ hroot (by rw [root, ← hnil])
    have hsplit := List.dropLast_append_getLast hne
    refine ⟨_, higher.components.getLast hne, parent?_eq_some hne,
      List.getLast?_eq_some_getLast hne, hsplit.symm, ?_⟩
    rw [depth, ← hsplit, List.length_append, depth]
    simp
  top := by
    refine ⟨above_eq_some_iff.mpr ⟨Nat.le_refl _, ?_⟩, rfl, rfl⟩
    rw [Nat.sub_self, List.take_zero, root]
  ancestors := path.ancestors_eq

/-! ## All of it -/

/-- The parser takes the texts of the grammar and refuses all others as invalid paths. What it takes
is the text of the path that it gives, and this path and those above it are read back. -/
theorem parses_exactly_grammar (text : String) :
    ((∃ path, parse text = .ok path) ↔ Grammatical text) ∧
      (¬ Grammatical text → ∃ fault, parse text = .error fault ∧ ∀ drive,
        Volume.parsePath text drive = .error (.error (.invalidPath fault)) drive) ∧
      ∀ path, parse text = .ok path → path.toText = text ∧ path.ReadsBack := by
  refine ⟨parse_isOk_iff, fun hnot ↦ ?_, fun path hpath ↦ ?_⟩
  · cases hparse : parse text with
    | ok path => exact absurd (grammatical_of_parse hparse) hnot
    | error fault =>
      refine ⟨fault, rfl, fun drive ↦ ?_⟩
      rw [Volume.parsePath, hparse]
      rfl
  · obtain ⟨htext, hnames⟩ := parse_eq_ok_iff.mp hpath
    exact ⟨htext, readsBack hnames⟩

/-- Ten characters of eleven bytes are a component, ten of twelve bytes are none. -/
theorem parses_exactly_grammar_accented :
    (∃ path, parse "/usr/naïve.cafe" = .ok path ∧ path.toText = "/usr/naïve.cafe" ∧
      path.above 2 = some root) ∧ ¬ Grammatical "/usr/naïve.café" := by
  have htaken : parse "/usr/naïve.cafe" = .ok ⟨["usr", "naïve.cafe"]⟩ := by decide
  have hrefused : parse "/usr/naïve.café" = .error (.componentTooLong "naïve.café" 11) := by decide
  obtain ⟨-, -, hread⟩ := parses_exactly_grammar "/usr/naïve.cafe"
  obtain ⟨htext, hback⟩ := hread _ htaken
  refine ⟨⟨_, htaken, htext, hback.top.1⟩, fun hgrammar ↦ ?_⟩
  obtain ⟨path, hpath⟩ := (parses_exactly_grammar "/usr/naïve.café").1.mpr hgrammar
  rw [hrefused] at hpath
  contradiction

end Path

end SectorFS
