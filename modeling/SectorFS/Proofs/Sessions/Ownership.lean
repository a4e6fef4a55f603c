import SectorFS.Proofs.Sessions.Removals
import Mathlib.Data.Set.Card

/-!
# Who owns a sector

A session that was reached from a successful format is valid, whatever calls were made. So
at every time the files of the volume lie apart, each of them has the tree that its length
prescribes, and the map marks exactly the sectors that belong to some file.
-/

namespace SectorFS

variable {sectors : Nat} {session : Session}

/-- On an exact image the sectors that are not free are those that belong to somebody. -/
theorem Image.Exact.length_free {image : Image} (h : image.Exact sectors) :
    (image.freeMap sectors).free.length =
      sectors - {sector | ∃ owner, image.Owns owner sector}.ncard := by
  have hset : {sector | ∃ owner, image.Owns owner sector} =
      (((List.range sectors).filter (image.freeMap sectors).isUsed).toFinset : Set Nat) := by
    ext sector
    simp only [Set.mem_ofPred_eq, List.coe_toFinset, List.mem_filter, List.mem_range, h.charged]
    exact ⟨fun howned ↦ ⟨h.lt_of_owns howned.choose_spec, howned⟩, And.right⟩
  have hcount := List.length_eq_length_filter_add (l := List.range sectors)
    (image.freeMap sectors).isUsed
  rw [hset, Set.ncard_coe_finset, List.toFinset_card_of_nodup (List.nodup_range.filter _),
    FreeMap.free, Image.Sound.sectors_freeMap]
  rw [List.length_range] at hcount
  omega

namespace Session

/-- In every session each sector belongs to the map, to the root directory or to the file of one
entry, at most once; the trees of these files are what their lengths prescribe; and the map marks
the sectors that belong to one of them. -/
theorem Reached.ownership (h : Reached sectors session) :
    (∀ owner head, session.image.headOf owner = some head →
      (session.image.extent head).Nodup ∧ (∀ member ∈ session.image.extent head, member < sectors) ∧
        ∃ node, session.image.node? head = some node ∧
          Geometry.heightFor node.length.toNat = some node.height ∧
          node.Formed session.image node.height node.length.toNat) ∧
    session.image.size freeMapSector = FreeMap.byteCount sectors ∧
    (∀ place directory, session.image.targetAt place = some ⟨directory, true⟩ →
      session.image.size directory = directorySize) ∧
    (∀ owner other sector, session.image.Owns owner sector → session.image.Owns other sector →
      owner = other) ∧
    (∀ sector, (session.image.freeMap sectors).isUsed sector = true ↔
      ∃ owner, session.image.Owns owner sector) ∧
    session.answer .freeSectors = .ok
      (.count (sectors - {sector | ∃ owner, session.image.Owns owner sector}.ncard)) := by
  have hsound := h.valid.sound
  refine ⟨fun owner head howner ↦ ?_, hsound.size_map, hsound.size_directory, hsound.owner_eq,
    hsound.charged, ?_⟩
  · obtain ⟨node, hintact⟩ := hsound.intact owner head howner
    exact ⟨hintact.nodup, hintact.lt, node, hintact.node_eq, hintact.height_eq, hintact.formed⟩
  · rw [h.valid.answer_freeSectors, hsound.length_free]

/-- Once the only file of a new volume is removed, all 51 sectors are free again and nothing is at
its path or below it. -/
theorem exists_vacated : ∃ volume formatted, Volume.format (.blank 64) = .ok volume formatted ∧
    let session := (begin formatted volume).run [.create "/a" 300, .removeTree "/a"]
    Reached 64 session ∧ (session.image.freeMap 64).free.length = 51 ∧
      (∃ index : Fin entryCount, (session.image.table rootSector).table[index].inUse = false) ∧
      ∀ text path target, Path.parse text = .ok path → ["a"] <+: path.components →
        session.image.locate text ≠ .ok target := by
  obtain ⟨volume, formatted, hformat, hplain, sector, hto⟩ := exists_plain_created
  obtain ⟨begun, blank, hbegun, -, -, -, hleft, file, hgains⟩ := exists_created_small
  obtain ⟨rfl, rfl⟩ := EStateM.Result.ok.inj (hformat.symm.trans hbegun)
  have hparse := hgains.parse_eq
  have hvalid := hplain.reached.valid
  have hextent := hgains.length_extent hvalid.sound.toSound
    (by rfl : Geometry.levelFor 300 = some 1)
  obtain ⟨-, whole, parent, hwhole, hparent, hloses⟩ := hvalid.removeTree_done hplain.legible hto
  obtain rfl : whole = ⟨["a"]⟩ := Except.ok.inj (hwhole.symm.trans hparse)
  obtain rfl : rootSector = parent := (Target.mk.inj (Except.ok.inj hparent)).1
  have hafter := (hvalid.step (show Permits _ (.removeTree "/a") from trivial)).1
  refine ⟨volume, formatted, hformat, hplain.reached.call trivial, ?_, ?_, ?_⟩
  · have hback := hloses.length_free hvalid hparse hgains.locate_eq
    have hneeds : Geometry.sectorNeeds 1 300 = 3 := by decide
    show (Image.freeMap (step _ _).image 64).free.length = 51
    omega
  · obtain ⟨name, index, -, -, hfreed⟩ := hloses.freed
    refine ⟨index, ?_⟩
    show ((step _ _).image.table rootSector).table[index].inUse = false
    rw [Image.table_eq_of_content hfreed, Directory.free, Directory.table_update, if_pos rfl]
    rfl
  · intro text found target hfound hprefix hlocate
    have hgone := hloses.gone text found hfound hprefix
    rw [hafter.resolve_eq_ok.mpr hlocate] at hgone
    contradiction

/-- A directory and a file in it take 15 sectors. -/
theorem Valid.create_nested (h : session.Valid 64)
    (hfree : (session.image.freeMap 64).free.length = 51)
    (hvacant : ∃ index : Fin entryCount,
      (session.image.table rootSector).table[index].inUse = false)
    (hnowhere : ∀ text path target, Path.parse text = .ok path → ["a"] <+: path.components →
      session.image.locate text ≠ .ok target) :
    let after := (session.step (.createDirectory "/a")).step (.create "/a/b" 300)
    (after.image.freeMap 64).free.length = 36 ∧
      (∃ directory, after.image.locate "/a" = .ok ⟨directory, true⟩) ∧
      ∃ file, after.image.locate "/a/b" = .ok ⟨file, false⟩ ∧
        (after.image.extent file).length = 4 := by
  have hupper : Path.parse "/a" = .ok ⟨["a"]⟩ := by rfl
  have hlower : Path.parse "/a/b" = .ok ⟨["a", "b"]⟩ := by rfl
  have hone : Geometry.levelFor 300 = some 1 := by rfl
  obtain ⟨-, ⟨level, hlevel, hleft⟩, path, parent, directory, hgains⟩ :=
    h.create_done (.directory "/a") (by decide) (Image.accepts_of_nowhere hupper rfl rfl
      (fun target ↦ hnowhere "/a" _ target hupper (List.prefix_refl _)) hvacant (by rfl)
      (by rw [hfree]; decide))
  obtain rfl : 1 = level := Option.some.inj hlevel
  have hmiddle := (h.step (show session.Permits (.createDirectory "/a") from trivial)).1
  have htable := Image.table_eq_of_content (hgains.empty rfl)
  have hparent := (Image.locate_of_parse hupper).symm.trans hgains.locate_eq
  have hten : Geometry.sectorNeeds 1 directorySize = 10 := by decide
  have hthree : Geometry.sectorNeeds 1 300 = 3 := by decide
  obtain ⟨-, ⟨height, hheight, hrest⟩, other, above, file, hnested⟩ :=
    hmiddle.create_done (.file "/a/b" 300) (by decide) (Image.accepts_of_nowhere hlower rfl hparent
      (fun target hlocate ↦ hnowhere "/a/b" _ target hlower ⟨["b"], rfl⟩
        (hgains.only _ _ hlocate (by decide)))
      (Image.vacant_of_empty htable) hone (by omega))
  obtain rfl : 1 = height := Option.some.inj hheight
  have hafter := (hmiddle.step (show Permits _ (.create "/a/b" 300) from trivial)).1
  refine ⟨by omega, ⟨directory, (hnested.kept _ _ hgains.locate_eq).1⟩, file, hnested.locate_eq, ?_⟩
  rw [hnested.length_extent hafter.sound.toSound hheight, hthree]

/-- A file is created and removed, a directory with a file in it takes its place, and the disk is
mounted again. Then 28 of the 64 sectors belong to somebody. -/
theorem ownership_remounted : ∃ volume formatted,
    Volume.format (.blank 64) = .ok volume formatted ∧
      let session := (begin formatted volume).run
        [.create "/a" 300, .removeTree "/a", .createDirectory "/a", .create "/a/b" 300, .remount]
      ∃ directory file, session.image.locate "/a" = .ok ⟨directory, true⟩ ∧
        session.image.locate "/a/b" = .ok ⟨file, false⟩ ∧
        (session.image.extent file).Nodup ∧ (session.image.extent file).length = 4 ∧
        session.image.size freeMapSector = 8 ∧ session.image.size directory = directorySize ∧
        (∀ owner other sector, session.image.Owns owner sector → session.image.Owns other sector →
          owner = other) ∧
        (∀ sector, (session.image.freeMap 64).isUsed sector = true ↔
          ∃ owner, session.image.Owns owner sector) ∧
        {sector | ∃ owner, session.image.Owns owner sector}.ncard = 28 ∧
        session.answer .freeSectors = .ok (.count 36) := by
  obtain ⟨volume, formatted, hformat, hreached, hfree, hvacant, hnowhere⟩ := exists_vacated
  obtain ⟨hleft, ⟨directory, hdirectory⟩, file, hfile, hlength⟩ :=
    hreached.valid.create_nested hfree hvacant hnowhere
  have hmade := @Reached.call 64 _ (.createDirectory "/a") hreached trivial
  have hnested := @Reached.call 64 _ (.create "/a/b" 300) hmade trivial
  have hmounted := @Reached.call 64 _ .remount hnested trivial
  obtain ⟨hapart, hmap, htables, howner, hused, hcount⟩ := Reached.ownership hmounted
  have hanswer := hmounted.valid.answer_freeSectors
  rw [hnested.valid.toMounted.image_remount] at hapart hmap htables howner hused hcount hanswer
  rw [hleft] at hanswer
  have hcounts := Answer.count.inj (Except.ok.inj (hcount.symm.trans hanswer))
  obtain ⟨upper, hupper⟩ := Image.exists_place_of_locate hdirectory
  obtain ⟨lower, hlower⟩ := Image.exists_place_of_locate hfile
  refine ⟨volume, formatted, hformat, ?_⟩
  intro session
  have himage : session.image = _ := hnested.valid.toMounted.image_remount
  rw [himage]
  exact ⟨directory, file, hdirectory, hfile, (hapart _ _ (Image.headOf_item hlower)).1, hlength,
    hmap, htables upper directory hupper, howner, hused, by omega, hanswer⟩

end Session

end SectorFS
