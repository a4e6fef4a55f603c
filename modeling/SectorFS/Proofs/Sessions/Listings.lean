import SectorFS.Proofs.Listing.Paths
import SectorFS.Proofs.Sessions.Creations
import SectorFS.Proofs.Sessions.Plain

/-!
# Listings and paths

In a session that creates nothing at a path with a zero character, a recursive listing and the
resolution of paths describe the same tree: the lines are the paths that lead somewhere from
the directory that is listed, each of them once and in preorder, and a listing that does not
go down consists of the lines of depth zero.
-/

namespace SectorFS

variable {sectors : Nat} {session : Session} {text : String}

namespace Image

variable {image : Image} {sector : Nat} {lines : List Listed}

/-- A path that goes on is followed from what the first part leads to. -/
theorem locate_extend {target : Target} {below : String} {rest : Path}
    (h : image.locate text = .ok target) (hrest : Path.parse ("/" ++ below) = .ok rest)
    (hne : rest.components ≠ []) :
    image.locate (Path.extend text below) = image.follow target rest.components := by
  obtain ⟨path, parent, hparse, -, -⟩ := locate_eq_ok.mp h
  rw [locate_of_parse hparse] at h
  rw [locate_of_parse (Path.parse_extend hparse hrest hne), Image.resolve, follow_append,
    ← Image.resolve, h]
  rfl

/-- The lines of a directory are the paths that go on from its own. -/
theorem Preorder.mem_iff_locate (h : image.Preorder 0 (image.table sector).entries lines)
    (hlegible : image.Legible) (hlocate : image.locate text = .ok ⟨sector, true⟩) {below : String}
    {target : Target} {depth : Nat} :
    (∃ line ∈ lines, line.path = below ∧ line.sector = target.sector ∧
        line.isDirectory = target.isDirectory ∧ line.depth = depth) ↔
      image.locate (Path.extend text below) = .ok target ∧
        ∃ rest, Path.parse ("/" ++ below) = .ok rest ∧ rest.depth = depth + 1 := by
  obtain ⟨parent, hplace⟩ := exists_place_of_locate hlocate
  have htable := hlegible parent sector hplace
  have hall := @mem_iff image 0 _ lines parent sector h hlegible hplace fun _ hentry ↦ hentry
  constructor
  · rintro ⟨line, hline, rfl, hsector, hkind, rfl⟩
    obtain ⟨entry, hentry, names, found, hnames, hfollow, rfl⟩ := hall.mp hline
    obtain rfl : found = target := by
      obtain ⟨_, _⟩ := found
      obtain ⟨_, _⟩ := target
      rw [Target.mk.injEq]
      exact ⟨hsector, hkind⟩
    have hshown := htable.isPlain_shownName hentry
    have hrest : Path.parse ("/" ++ (Listed.ofNames 0 entry.shownName names found).path) =
        .ok ⟨entry.shownName :: names⟩ := by
      rw [Listed.path_ofNames]
      refine Path.parse_toText fun name hname ↦ ?_
      rcases List.mem_cons.mp hname with rfl | hname
      · exact hshown.toIsComponent
      · exact hnames name hname
    refine ⟨?_, ⟨entry.shownName :: names⟩, hrest, ?_⟩
    · rw [locate_extend hlocate hrest (List.cons_ne_nil _ _), follow_shown htable hshown.fits]
      exact ⟨entry, hentry, rfl, hfollow⟩
    · rw [Path.depth, List.length_cons, Listed.ofNames, Nat.zero_add]
  · rintro ⟨hfound, ⟨components⟩, hrest, hdepth⟩
    obtain ⟨htext, hnames⟩ := Path.parse_eq_ok_iff.mp hrest
    cases components with
    | nil => contradiction
    | cons name names =>
      rw [locate_extend hlocate hrest (List.cons_ne_nil _ _),
        follow_shown htable (hnames name List.mem_cons_self).fits] at hfound
      obtain ⟨entry, hentry, rfl, hfollow⟩ := hfound
      refine ⟨_, hall.mpr ⟨entry, hentry, names, target, fun name hname ↦
        hnames name (List.mem_cons_of_mem _ hname), hfollow, rfl⟩, ?_, rfl, rfl, ?_⟩
      · rw [← String.append_right_inj "/", Listed.path_ofNames, htext]
      · rw [Path.depth, List.length_cons] at hdepth
        show 0 + names.length = depth
        omega

end Image

namespace Session

/-- A recursive listing has a line for each path that leads somewhere below the directory, once and
in preorder. A flat listing has those of depth zero. -/
theorem Plain.listing (h : Plain sectors session) {sector : Nat}
    (hdirectory : session.resolve text = .ok ⟨sector, true⟩) :
    ∃ lines, session.answer (.list text true) = .ok (.listing lines) ∧
      (∀ below target depth,
        (∃ line ∈ lines, line.path = below ∧ line.sector = target.sector ∧
          line.isDirectory = target.isDirectory ∧ line.depth = depth) ↔
        session.resolve (Path.extend text below) = .ok target ∧
          ∃ rest, Path.parse ("/" ++ below) = .ok rest ∧ rest.depth = depth + 1) ∧
      (lines.map (·.path)).Nodup ∧
      session.image.Preorder 0 (session.image.table sector).entries lines ∧
      session.answer (.list text false) = .ok (.listing (lines.filter (·.depth == 0))) := by
  have hvalid := h.reached.valid
  have hlocate := hvalid.resolve_eq_ok.mp hdirectory
  obtain ⟨place, hplace⟩ := Image.exists_place_of_locate hlocate
  obtain ⟨lines, hlines, hrun, hflat⟩ :=
    Volume.list_performs hvalid.fits.attached hvalid.sound.toSound hlocate
  refine ⟨lines, ?_, fun below target depth ↦ ?_, ?_, hlines, ?_⟩
  · exact @Mounted.answer_of_performs sectors session (.list text true) hvalid.toMounted _ _
      (hrun.map fun lines ↦ (Answer.listing lines, session.volume))
  · rw [hvalid.resolve_eq_ok]
    exact hlines.mem_iff_locate h.legible hlocate
  · exact hlines.nodup_path h.legible hplace (fun _ hentry ↦ hentry)
      (h.legible place sector hplace).pairwise_shownName
  · rw [hlines.filter_depth]
    exact @Mounted.answer_of_performs sectors session (.list text false) hvalid.toMounted _ _
      (hflat.map fun lines ↦ (Answer.listing lines, session.volume))

/-- After a directory is created in the root directory of a new volume, it is listed. -/
theorem listing_first : ∃ volume formatted, Volume.format (.blank 64) = .ok volume formatted ∧
    let session := (begin formatted volume).step (.createDirectory "/a")
    session.resolve "/" = .ok ⟨rootSector, true⟩ ∧
      ∃ lines, session.answer (.list "/" true) = .ok (.listing lines) ∧
        (∃ line ∈ lines, line.path = "a" ∧ line.isDirectory = true ∧ line.depth = 0) ∧
        session.answer (.list "/" false) = .ok (.listing (lines.filter (·.depth == 0))) := by
  obtain ⟨volume, formatted, hformat, hreached, htable, hlength⟩ := exists_reached_small
  have hsession : Plain 64 ((begin formatted volume).step (.createDirectory "/a")) :=
    (Plain.blank hformat).creates (.directory "/a") (by decide)
  have hvalid := hsession.reached.valid
  obtain ⟨-, -, path, directory, sector, hgains⟩ := hreached.valid.create_done
    (.directory "/a") (by decide)
    (Image.accepts_of_empty htable (by rfl) (by rfl) (by rw [hlength]; decide))
  have hroot : ((begin formatted volume).step (.createDirectory "/a")).resolve "/" =
      .ok ⟨rootSector, true⟩ := hvalid.resolve_eq_ok.mpr rfl
  obtain ⟨lines, hanswer, hlines, -, -, hflat⟩ := Plain.listing hsession hroot
  refine ⟨volume, formatted, hformat, hroot, lines, hanswer, ?_, hflat⟩
  obtain ⟨line, hline, hpath, -, hkind, hdepth⟩ := (hlines "a" ⟨sector, true⟩ 0).mpr
    ⟨hvalid.resolve_eq_ok.mpr hgains.locate_eq, ⟨["a"]⟩, by rfl, rfl⟩
  exact ⟨line, hline, hpath, hkind, hdepth⟩

end Session

end SectorFS
