import SandboxVm.Proofs.HeaderValidation

namespace SandboxVm.Proofs.ImageGap

open SandboxVm.Proofs.HeaderValidation

/-- The bytes between the header and the code. -/
def gap (header : Header) (image : Image) : List UInt8 :=
  (image.take header.codeOffset).drop header.size

/-- The image with other bytes between its header and its code. -/
def withGap (header : Header) (image : Image) (bytes : List UInt8) : Image :=
  image.take header.size ++ bytes ++ image.drop header.codeOffset

/-- The image `image'` is accepted with the header and the regions that `image` has. -/
structure SameContents (header : Header) (image image' : Image) : Prop where
  parse : Header.parse image' = .ok header
  code : header.codeRegion image' = header.codeRegion image
  data : header.dataRegion image' = header.dataRegion image
  jumpTable : header.jumpTableRegion image' = header.jumpTableRegion image

section

variable {image image' : Image} {header : Header}

theorem signedWord_congr {n i : Nat} (htake : image'.take n = image.take n) (hi : 4 * i + 4 ≤ n) :
    signedWord image' i = signedWord image i := by
  have hword (l : Image) : (l.drop (4 * i)).take 4 = ((l.take n).drop (4 * i)).take 4 := by
    rw [List.drop_take, List.take_take, Nat.min_eq_left (by omega)]
  rw [signedWord, signedWord, hword image', hword image, htake]

theorem readFields_congr {version : Version} (hlong : version.headerSize ≤ image.length)
    (hlong' : version.headerSize ≤ image'.length)
    (htake : image'.take version.headerSize = image.take version.headerSize) :
    Header.readFields version image' = Header.readFields version image := by
  have hword {i : Nat} (hi : 4 * i + 4 ≤ Version.v1.headerSize) :
      signedWord image' i = signedWord image i :=
    signedWord_congr htake (hi.trans (headerSize_le version))
  have htable : tableWord version image' = tableWord version image := by
    cases version with
    | v1 => rfl
    | v2 => exact signedWord_congr htake (by decide)
  rw [readFields_eq hlong, readFields_eq hlong', htable, hword (i := 1) (by decide),
    hword (i := 2) (by decide), hword (i := 3) (by decide), hword (i := 4) (by decide),
    hword (i := 5) (by decide), hword (i := 6) (by decide), hword (i := 7) (by decide)]

theorem parse_congr (h : Header.parse image = .ok header) (hlength : image'.length = image.length)
    (htake : image'.take header.size = image.take header.size) :
    Header.parse image' = .ok header := by
  have hversion := (wellFormed_iff.mp (parse_eq_ok_iff.mp h).1).1
  obtain ⟨hlong, hmagic⟩ := readVersion_eq_ok_iff.mp hversion
  have hfour : image'.take 4 = image.take 4 := by
    have hsize : 4 ≤ header.size := Nat.le_trans (by decide) (headerSize_le header.version)
    have hfirst := congrArg (List.take 4) htake
    rwa [List.take_take, List.take_take, Nat.min_eq_left hsize] at hfirst
  have hversion' : Header.readVersion image' = .ok header.version :=
    readVersion_eq_ok_iff.mpr ⟨hlength ▸ hlong, hfour ▸ hmagic⟩
  have hfields := readFields_congr hlong (hlength ▸ hlong) htake
  rw [Header.parse, hversion] at h
  rw [Header.parse, hversion']
  simp only [bind, Except.bind] at h ⊢
  rwa [hfields, hlength]

theorem split_at_gap (h : Header.parse image = .ok header) :
    image = image.take header.size ++ gap header image ++ image.drop header.codeOffset := by
  have hsize := (regions_follow h).1
  have hfront : image.take header.size = (image.take header.codeOffset).take header.size := by
    rw [List.take_take, Nat.min_eq_left hsize]
  rw [hfront, gap, List.take_append_drop, List.take_append_drop]

/-- An image is its header, the gap, and the regions. -/
theorem image_eq_append (h : Header.parse image = .ok header) :
    image = Word.listToBytes header.toWords ++ gap header image ++
      (header.codeRegion image ++ header.dataRegion image ++ header.jumpTableRegion image) := by
  have hlossless := lossless_of_parse h
  rw [hlossless.words, hlossless.regions]
  exact split_at_gap h

theorem eq_iff_gap_eq (h : Header.parse image = .ok header)
    (hsame : SameContents header image image') :
    image' = image ↔ gap header image' = gap header image := by
  constructor
  · rintro rfl
    rfl
  · intro hgap
    rw [image_eq_append h, image_eq_append hsame.parse, hgap, hsame.code, hsame.data,
      hsame.jumpTable]

theorem length_gap (h : Header.parse image = .ok header) :
    (gap header image).length = header.codeOffset - header.size := by
  have hend := (lossless_of_parse h).inside.1
  rw [gap, List.length_drop, List.length_take]
  omega

section

variable {bytes : List UInt8} (h : Header.parse image = .ok header)
  (hbytes : bytes.length = header.codeOffset - header.size)

include h hbytes

theorem length_front :
    (image.take header.size).length = header.size ∧
      (image.take header.size ++ bytes).length = header.codeOffset := by
  have hsize := (regions_follow h).1
  have hend := (lossless_of_parse h).inside.1
  rw [List.length_append, List.length_take]
  omega

theorem drop_withGap {n : Nat} (hn : header.codeOffset ≤ n) :
    (withGap header image bytes).drop n = image.drop n := by
  have hfront := (length_front h hbytes).2
  have hcode : (withGap header image bytes).drop header.codeOffset = image.drop header.codeOffset :=
    List.drop_left' hfront
  rw [← Nat.add_sub_cancel' hn, ← List.drop_drop, hcode, List.drop_drop]

theorem gap_withGap : gap header (withGap header image bytes) = bytes := by
  obtain ⟨hsize, hfront⟩ := length_front h hbytes
  rw [gap, withGap, List.take_left' hfront, List.drop_left' hsize]

/-- Whatever is put into the gap, the image is accepted with the same header and regions. -/
theorem sameContents_withGap : SameContents header image (withGap header image bytes) := by
  obtain ⟨hsize, hfront⟩ := length_front h hbytes
  obtain ⟨-, hdata, -⟩ := regions_follow h
  have hlength : (withGap header image bytes).length = image.length := by
    have hend := (lossless_of_parse h).inside.1
    rw [withGap, List.length_append, hfront, List.length_drop]
    omega
  have htake : (withGap header image bytes).take header.size = image.take header.size := by
    rw [withGap, List.append_assoc, List.take_left' hsize]
  refine ⟨parse_congr h hlength htake, ?_, ?_, ?_⟩
  · rw [Header.codeRegion, Header.codeRegion, drop_withGap h hbytes (Nat.le_refl _)]
  · rw [Header.dataRegion, Header.dataRegion, drop_withGap h hbytes (by omega)]
  · rw [Header.jumpTableRegion, Header.jumpTableRegion, drop_withGap h hbytes (by omega)]

end

theorem determined_iff (h : Header.parse image = .ok header) :
    (∀ image', SameContents header image image' → image' = image) ↔
      header.codeOffset = header.size := by
  have hlength := length_gap h
  constructor
  · intro hdetermined
    -- All zeros and all ones cannot both be what is in the gap.
    have hall (b : UInt8) :
        List.replicate (header.codeOffset - header.size) b = gap header image := by
      have hbytes : (List.replicate (header.codeOffset - header.size) b).length =
          header.codeOffset - header.size := List.length_replicate
      rw [← gap_withGap h hbytes, hdetermined _ (sameContents_withGap h hbytes)]
    have hsize := (regions_follow h).1
    rcases Nat.eq_zero_or_pos (header.codeOffset - header.size) with hzero | hpos
    · omega
    · have hheads := congrArg List.head? ((hall 0).trans (hall 1).symm)
      exact absurd hheads (by simp [List.head?_replicate, Nat.ne_of_gt hpos])
  · intro hoffset image' hsame
    have hlength' := length_gap hsame.parse
    rw [hoffset, Nat.sub_self] at hlength hlength'
    rw [eq_iff_gap_eq h hsame, List.length_eq_zero_iff.mp hlength,
      List.length_eq_zero_iff.mp hlength']

/-- An accepted image consists of its header, its regions and a gap between them that may hold
anything. So its header and its regions determine it up to the gap, and altogether exactly if
the code follows the header. -/
theorem contents_determine_up_to_gap (h : Header.parse image = .ok header) :
    (image = Word.listToBytes header.toWords ++ gap header image ++
      (header.codeRegion image ++ header.dataRegion image ++ header.jumpTableRegion image)) ∧
    (∀ image', SameContents header image image' →
      (image' = image ↔ gap header image' = gap header image)) ∧
    (∀ bytes : List UInt8, bytes.length = header.codeOffset - header.size →
      SameContents header image (withGap header image bytes) ∧
        gap header (withGap header image bytes) = bytes) ∧
    ((∀ image', SameContents header image image' → image' = image) ↔
      header.codeOffset = header.size) :=
  ⟨image_eq_append h, fun _ hsame => eq_iff_gap_eq h hsame,
    fun _ hbytes => ⟨sameContents_withGap h hbytes, gap_withGap h hbytes⟩, determined_iff h⟩

end

theorem contents_determine_up_to_gap_full :
    Header.parse fullImage = .ok ⟨.v2, 1, 40, 1, 41, 4, 2, 16, 4⟩ ∧
      gap ⟨.v2, 1, 40, 1, 41, 4, 2, 16, 4⟩ fullImage = [9, 9, 9, 9] ∧
      SameContents ⟨.v2, 1, 40, 1, 41, 4, 2, 16, 4⟩ fullImage
        (withGap ⟨.v2, 1, 40, 1, 41, 4, 2, 16, 4⟩ fullImage [0, 0, 0, 0]) := by
  have hparse : Header.parse fullImage = .ok ⟨.v2, 1, 40, 1, 41, 4, 2, 16, 4⟩ := by decide
  exact ⟨hparse, by decide, ((contents_determine_up_to_gap hparse).2.2.1 [0, 0, 0, 0] rfl).1⟩

/-- Two images that differ between the header and the code are accepted with the same header
and the same regions. -/
theorem contents_not_injective : ¬ ∀ (image image' : Image) (header : Header),
    Header.parse image = .ok header → Header.parse image' = .ok header →
      header.codeRegion image' = header.codeRegion image →
        header.dataRegion image' = header.dataRegion image →
          header.jumpTableRegion image' = header.jumpTableRegion image → image' = image := by
  intro hinjective
  have hsame := hinjective fullImage
    (withGap ⟨.v2, 1, 40, 1, 41, 4, 2, 16, 4⟩ fullImage [0, 0, 0, 0])
    ⟨.v2, 1, 40, 1, 41, 4, 2, 16, 4⟩ (by decide) (by decide) (by decide) (by decide) (by decide)
  exact absurd hsame (by decide)

end SandboxVm.Proofs.ImageGap
