import Mathlib.Tactic

/-!
# The reflected CRC-32 of frames and files

Both checksum routines of the program run the same bitwise loop with the
polynomial `0xedb88320`; the frame codec also inverts the result.
-/
namespace BoardComm

/-- One bit of the inner loop: shift right and subtract the polynomial when the
bit shifted out was one. -/
def crcBit (crc : UInt32) : UInt32 :=
  let mask := 0 - (crc &&& 1)
  (crc >>> 1) ^^^ (0xedb88320 &&& mask)

/-- One byte of the outer loop. -/
def crcByte (crc : UInt32) (b : UInt8) : UInt32 := crcBit^[8] (crc ^^^ b.toUInt32)

/-- `bc_file_crc32_update`: continue a running remainder over more bytes. -/
def bcFileCrc32Update (crc : UInt32) (data : List UInt8) : UInt32 := data.foldl crcByte crc

/-- `bc_crc32` of the frame codec. -/
def bcCrc32 (data : List UInt8) : UInt32 := ~~~(data.foldl crcByte 0xffffffff)

@[simp] theorem bcFileCrc32Update_nil (crc : UInt32) : bcFileCrc32Update crc [] = crc := rfl

@[simp] theorem bcFileCrc32Update_append (crc : UInt32) (a b : List UInt8) :
    bcFileCrc32Update crc (a ++ b) = bcFileCrc32Update (bcFileCrc32Update crc a) b := by
  simp [bcFileCrc32Update]

end BoardComm
