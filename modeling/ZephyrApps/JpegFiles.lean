import Mathlib.Algebra.Order.Ring.Nat

/-!
# JPEG files and their orientation

A JPEG file begins with `SOI` and goes on with marker segments, each with its length, up to the
scan. `readJpeg` finds them; `orientationOf` reads the orientation tag of an Exif segment, in
either byte order, and `viewerTurns` is what a viewer makes of the first one it finds.
-/
namespace ZephyrApps.JpegFiles

structure Segment where
  marker : UInt8
  payload : List UInt8
  deriving DecidableEq

/-- `SOI` -/
def startOfImage : List UInt8 := [0xFF, 0xD8]

/-- `SOS` -/
def startOfScan : UInt8 := 0xDA

/-- `APP1` -/
def app1 : UInt8 := 0xE1

def Segment.bytes (s : Segment) : List UInt8 :=
  0xFF :: s.marker :: UInt8.ofNat ((s.payload.length + 2) / 256) ::
    UInt8.ofNat (s.payload.length + 2) :: s.payload

def segmentAt : List UInt8 → Option (Segment × List UInt8)
  | mark :: marker :: hi :: lo :: rest =>
    let n := hi.toNat * 256 + lo.toNat - 2
    if mark = 0xFF ∧ marker ≠ startOfScan ∧ 2 ≤ hi.toNat * 256 + lo.toNat ∧ n ≤ rest.length then
      some (⟨marker, rest.take n⟩, rest.drop n)
    else none
  | _ => none

def segmentsFrom : ℕ → List UInt8 → List Segment × List UInt8
  | 0, bytes => ([], bytes)
  | fuel + 1, bytes =>
    match segmentAt bytes with
    | none => ([], bytes)
    | some (s, rest) =>
      let (ss, scan) := segmentsFrom fuel rest
      (s :: ss, scan)

def readJpeg (file : List UInt8) : Option (List Segment × List UInt8) :=
  if file.take 2 = startOfImage then some (segmentsFrom file.length (file.drop 2)) else none

theorem segmentAt_shorter {bytes rest : List UInt8} {s : Segment}
    (h : segmentAt bytes = some (s, rest)) : rest.length < bytes.length := by
  unfold segmentAt at h
  split at h
  · obtain ⟨-, he⟩ := Option.ite_none_right_eq_some.mp h
    cases he
    simp only [List.length_drop, List.length_cons]
    omega
  · cases h

theorem segmentAt_bytes {s : Segment} (hmarker : s.marker ≠ startOfScan)
    (hlen : s.payload.length + 2 < 65536) (rest : List UInt8) :
    segmentAt (s.bytes ++ rest) = some (s, rest) := by
  have hhi : (UInt8.ofNat ((s.payload.length + 2) / 256)).toNat = (s.payload.length + 2) / 256 := by
    rw [UInt8.toNat_ofNat']
    omega
  have hlo : (UInt8.ofNat (s.payload.length + 2)).toNat = (s.payload.length + 2) % 256 :=
    UInt8.toNat_ofNat'
  have hn : (s.payload.length + 2) / 256 * 256 + (s.payload.length + 2) % 256 =
      s.payload.length + 2 := Nat.div_add_mod' _ _
  simp only [Segment.bytes, List.cons_append, segmentAt, hhi, hlo, hn]
  rw [if_pos ⟨trivial, hmarker, by omega, by simp⟩]
  simp

/-- The fuel does not matter if there is enough of it. -/
theorem segmentsFrom_fuel {n m : ℕ} {bytes : List UInt8} (hn : bytes.length ≤ n)
    (hm : bytes.length ≤ m) : segmentsFrom n bytes = segmentsFrom m bytes := by
  induction n generalizing m bytes with
  | zero =>
    rw [List.eq_nil_of_length_eq_zero (Nat.le_zero.mp hn)]
    cases m with
    | zero => rfl
    | succ m => rfl
  | succ n ih =>
    cases m with
    | zero =>
      rw [List.eq_nil_of_length_eq_zero (Nat.le_zero.mp hm)]
      rfl
    | succ m =>
      rw [segmentsFrom, segmentsFrom]
      cases hs : segmentAt bytes with
      | none => rfl
      | some p =>
        obtain ⟨s, rest⟩ := p
        have hlt := segmentAt_shorter hs
        simp only
        rw [ih (m := m) (by omega) (by omega)]

theorem readJpeg_startOfImage (rest : List UInt8) :
    readJpeg (startOfImage ++ rest) = some (segmentsFrom (rest.length + 2) rest) := rfl

/-- A segment put in right behind `SOI` is read in front of the others, which are read as before. -/
theorem readJpeg_insert {s : Segment} (hmarker : s.marker ≠ startOfScan)
    (hlen : s.payload.length + 2 < 65536) (rest : List UInt8) :
    readJpeg (startOfImage ++ (s.bytes ++ rest)) =
      (readJpeg (startOfImage ++ rest)).map fun file => (s :: file.1, file.2) := by
  rw [readJpeg_startOfImage, readJpeg_startOfImage, segmentsFrom, segmentAt_bytes hmarker hlen]
  have hfuel : segmentsFrom ((s.bytes ++ rest).length + 1) rest =
      segmentsFrom (rest.length + 2) rest :=
    segmentsFrom_fuel (by rw [List.length_append]; omega) (by omega)
  simp only [hfuel, Option.map_some]

def word (big : Bool) (bytes : List UInt8) (i : ℕ) : ℕ :=
  let a := (bytes.getD i 0).toNat
  let b := (bytes.getD (i + 1) 0).toNat
  if big then a * 256 + b else b * 256 + a

def longWord (big : Bool) (bytes : List UInt8) (i : ℕ) : ℕ :=
  if big then word big bytes i * 65536 + word big bytes (i + 2)
  else word big bytes (i + 2) * 65536 + word big bytes i

/-- The value of the orientation tag among the `n` entries of a directory that begin at `i`:
one `SHORT`. -/
def orientationEntry (big : Bool) (tiff : List UInt8) (i n : ℕ) : Option ℕ :=
  (List.range n).findSome? fun k =>
    let entry := i + 12 * k
    if word big tiff entry = 0x112 ∧ word big tiff (entry + 2) = 3 ∧
        longWord big tiff (entry + 4) = 1 then
      some (word big tiff (entry + 8))
    else none

def tiffOrientation (tiff : List UInt8) : Option ℕ :=
  let big := decide (tiff.take 2 = [0x4D, 0x4D])
  if (big = true ∨ tiff.take 2 = [0x49, 0x49]) ∧ word big tiff 2 = 42 then
    let ifd := longWord big tiff 4
    orientationEntry big tiff (ifd + 2) (word big tiff ifd)
  else none

/-- `"Exif"` and two NULs. -/
def exifIdentifier : List UInt8 := [0x45, 0x78, 0x69, 0x66, 0, 0]

def orientationOf (s : Segment) : Option ℕ :=
  if s.marker = app1 ∧ s.payload.take 6 = exifIdentifier then tiffOrientation (s.payload.drop 6)
  else none

/-- By how many quarter turns clockwise an image with this orientation is turned to be shown; the
others mirror it. -/
def quarterTurns : ℕ → Option ℕ
  | 1 => some 0
  | 6 => some 1
  | 3 => some 2
  | 8 => some 3
  | _ => none

/-- How far a viewer turns an image; not at all without an orientation. -/
def viewerTurns (file : List UInt8) : Option ℕ :=
  (readJpeg file).bind fun parts =>
    ((parts.1.findSome? orientationOf).map quarterTurns).getD (some 0)

end ZephyrApps.JpegFiles
