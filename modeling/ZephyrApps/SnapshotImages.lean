import ZephyrApps.JpegFiles

/-!
# Snapshots that a viewer turns

`exif.h` of the Prusa camera: a frame of a rotated camera is sent with an Exif segment behind its
`SOI`, so that it need not be encoded anew.
-/
namespace ZephyrApps.SnapshotImages
open JpegFiles

/-- `exif_orientation` -/
def exifOrientation (rotation : UInt8) : UInt16 :=
  if rotation < 4 then [1, 6, 3, 8].getD rotation.toNat 0 else 1

/-- `tmpl` of `exif_header` -/
def tmpl : List UInt8 :=
  [0xFF, 0xD8] ++                                          -- SOI
    [0xFF, 0xE1, 0x00, 0x22] ++                            -- APP1, 34 bytes
    [0x45, 0x78, 0x69, 0x66, 0x00, 0x00] ++                -- Exif identifier
    [0x4D, 0x4D, 0x00, 0x2A, 0x00, 0x00, 0x00, 0x08] ++    -- big-endian TIFF, IFD0 at 8
    [0x00, 0x01] ++                                        -- one IFD0 entry
    [0x01, 0x12, 0x00, 0x03, 0x00, 0x00, 0x00, 0x01] ++    -- Orientation, SHORT, count 1
    [0x00, 0x00, 0x00, 0x00] ++                            -- its value
    [0x00, 0x00, 0x00, 0x00]                               -- no IFD1

/-- `exif_header` -/
def exifHeader (orientation : UInt16) : List UInt8 :=
  (tmpl.set 30 (orientation >>> 8).toUInt8).set 31 (orientation &&& 0xFF).toUInt8

/-- `exif_wanted` -/
def exifWanted (jpeg : List UInt8) (rotation : UInt8) : Bool :=
  decide (rotation ≠ 0 ∧ rotation < 4 ∧ 2 ≤ jpeg.length) &&
    decide (jpeg.getD 0 0 = 0xFF ∧ jpeg.getD 1 0 = 0xD8)

def sentImage (rotation : UInt8) (jpeg : List UInt8) : List UInt8 :=
  if exifWanted jpeg rotation then exifHeader (exifOrientation rotation) ++ jpeg.drop 2 else jpeg

def exifSegment (orientation : UInt16) : Segment := ⟨app1, (exifHeader orientation).drop 6⟩

theorem app1_ne_startOfScan : app1 ≠ startOfScan := by decide

theorem exifSegment_length (orientation : UInt16) :
    (exifSegment orientation).payload.length = 32 := rfl

theorem exifHeader_eq (orientation : UInt16) :
    exifHeader orientation = startOfImage ++ (exifSegment orientation).bytes := by
  rw [Segment.bytes, exifSegment_length]
  rfl

theorem orientation_bytes (o : UInt16) :
    (o >>> 8).toUInt8.toNat * 256 + (o &&& 0xFF).toUInt8.toNat = o.toNat := by
  have hlt := o.toNat_lt
  have hhi : (o >>> 8).toUInt8.toNat = o.toNat / 256 := by
    rw [UInt16.toNat_toUInt8, UInt16.toNat_shiftRight]
    have : o.toNat >>> ((8 : UInt16).toNat % 16) = o.toNat / 256 := Nat.shiftRight_eq_div_pow _ 8
    omega
  have hlo : (o &&& 0xFF).toUInt8.toNat = o.toNat % 256 := by
    rw [UInt16.toNat_toUInt8, UInt16.toNat_and]
    have : o.toNat &&& (0xFF : UInt16).toNat = o.toNat % 256 := Nat.and_two_pow_sub_one_eq_mod _ 8
    omega
  omega

theorem exifSegment_tiff (o : UInt16) : (exifSegment o).payload.drop 6 =
    ([0x4D, 0x4D, 0x00, 0x2A, 0x00, 0x00, 0x00, 0x08, 0x00, 0x01] : List UInt8) ++
      ([0x01, 0x12, 0x00, 0x03, 0x00, 0x00, 0x00, 0x01] : List UInt8) ++
        [(o >>> 8).toUInt8, (o &&& 0xFF).toUInt8, 0x00, 0x00, 0x00, 0x00, 0x00, 0x00] := rfl

theorem orientationOf_exifSegment (orientation : UInt16) :
    orientationOf (exifSegment orientation) = some orientation.toNat := by
  have hsegment : orientationOf (exifSegment orientation) =
      tiffOrientation ((exifSegment orientation).payload.drop 6) := if_pos ⟨rfl, rfl⟩
  rw [hsegment, exifSegment_tiff, ← orientation_bytes orientation]
  generalize (orientation >>> 8).toUInt8 = hi
  generalize (orientation &&& 0xFF).toUInt8 = lo
  simp [tiffOrientation, orientationEntry, word, longWord]

theorem exifWanted_iff {jpeg : List UInt8} {rotation : UInt8} :
    exifWanted jpeg rotation = true ↔
      (rotation ≠ 0 ∧ rotation < 4) ∧ jpeg = startOfImage ++ jpeg.drop 2 := by
  unfold exifWanted
  match jpeg with
  | [] => simp [startOfImage]
  | [a] => simp [startOfImage]
  | a :: b :: rest => simp [startOfImage, and_assoc]

/-- The orientation says how far the camera is turned. -/
theorem quarterTurns_exifOrientation {rotation : UInt8} (h : rotation < 4) :
    quarterTurns (exifOrientation rotation).toNat = some rotation.toNat := by
  have hall : ∀ n < 4, quarterTurns (([1, 6, 3, 8] : List UInt16).getD n 0).toNat = some n := by
    decide
  rw [exifOrientation, if_pos h]
  exact hall rotation.toNat h

/-- A viewer turns what is sent of a frame as far as the camera is rotated, and otherwise finds
the frame in it: its segments, behind the one with the orientation, and its scan. A frame that needs
no turn, or is no JPEG, is sent as it is. -/
theorem viewer_turns (rotation : UInt8) (jpeg : List UInt8) :
    (exifWanted jpeg rotation = true →
      viewerTurns (sentImage rotation jpeg) = some rotation.toNat ∧
        readJpeg (sentImage rotation jpeg) = (readJpeg jpeg).map fun file =>
          (exifSegment (exifOrientation rotation) :: file.1, file.2)) ∧
      (exifWanted jpeg rotation = false → sentImage rotation jpeg = jpeg) ∧
      (exifWanted jpeg rotation = true ↔
        (rotation ≠ 0 ∧ rotation < 4) ∧ jpeg.take 2 = startOfImage) := by
  have hstart : jpeg = startOfImage ++ jpeg.drop 2 ↔ jpeg.take 2 = startOfImage := by
    constructor
    · intro h
      rw [h]
      rfl
    · intro h
      rw [← h, List.take_append_drop]
  refine ⟨fun h => ?_, fun h => ?_, exifWanted_iff.trans (by rw [hstart])⟩
  · obtain ⟨⟨-, hlt⟩, hjpeg⟩ := exifWanted_iff.mp h
    have hread : readJpeg (sentImage rotation jpeg) = (readJpeg jpeg).map fun file =>
        (exifSegment (exifOrientation rotation) :: file.1, file.2) := by
      rw [sentImage, if_pos h, exifHeader_eq, List.append_assoc,
        readJpeg_insert (s := exifSegment _) app1_ne_startOfScan
          (by rw [exifSegment_length]; omega), ← hjpeg]
    refine ⟨?_, hread⟩
    rw [viewerTurns, hread, hjpeg, readJpeg_startOfImage]
    simp only [Option.map_some, Option.bind_some, List.findSome?_cons, orientationOf_exifSegment,
      Option.getD_some, quarterTurns_exifOrientation hlt]
  · rw [sentImage, h]
    rfl

end ZephyrApps.SnapshotImages
