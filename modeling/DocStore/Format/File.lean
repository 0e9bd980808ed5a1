import DocStore.Digest.Sha256
import DocStore.Format.Decoder

/-!
The frame of a file: a magic number and a version, the region of the segments, and the digest
of that region.
-/

namespace DocStore

namespace File

/-- The first four bytes of a file, "SEAL" read as a number. -/
def magic : Nat := Bytes.value [0x53, 0x45, 0x41, 0x4C]

/-- The only version that is read and written. -/
def version : Nat := 1

/-- The bytes before the segments. -/
def header : Bytes := Bytes.ofUInt32 magic ++ Bytes.ofUInt32 version

/-- The length of the bytes before the segments. -/
def headerLength : Nat := 8

/-- A file with the given segments. -/
def form (region : Bytes) : Bytes := header ++ region ++ Sha256.digest region

/-- A file with its digest replaced by that of what it frames. -/
def reseal (file : Bytes) : Bytes :=
  let framed := file.take (file.length - Sha256.width)
  framed ++ Sha256.digest (framed.drop headerLength)

/-- The region of the segments of a file. The length is checked first, then the magic number,
the version and, if asked for, the digest. -/
def openRegion (file : View) (verify : Bool) : Except (Failure FormatError) View := do
  let frame := headerLength + Sha256.width
  if file.size < frame then
    refuse (FormatError.truncated file.size
      s!"{file.size} bytes is shorter than header and digest ({frame})")
  let found ← file.uint32At 0
  if found ≠ magic then
    refuse (FormatError.badMagic found)
  let foundVersion ← file.uint32At 4
  if foundVersion ≠ version then
    refuse (FormatError.unsupportedVersion foundVersion version)
  let length ← subSizes (← subSizes file.size headerLength) Sha256.width
  match file.slice? headerLength length with
  | none => refuse (FormatError.truncated headerLength "segment region")
  | some region =>
    if verify then
      let stored ← file.bytesAt (← subSizes file.size Sha256.width) Sha256.width
      if Sha256.verify region.bytes stored then
        return region
      else
        refuse FormatError.digestMismatch
    else
      return region

theorem length_header : header.length = headerLength := by
  simp [header, headerLength]

end File

end DocStore
