/-!
# CRC-32

The cyclic redundancy check with the reflected polynomial `0xEDB88320`, one bit at a time. The
register starts with all bits set and is inverted at the end.
-/

namespace FormWeave.Crc32

/-- The generator polynomial, lowest power in the highest bit. -/
def polynomial : UInt32 := 0xedb88320

def start : UInt32 := 0xffffffff

def shift (register : UInt32) : UInt32 :=
  if register &&& 1 == 1 then (register >>> 1) ^^^ polynomial else register >>> 1

def shiftByte (register : UInt32) : UInt32 :=
  shift (shift (shift (shift (shift (shift (shift (shift register)))))))

def update (register : UInt32) (byte : UInt8) : UInt32 :=
  shiftByte (register ^^^ byte.toUInt32)

def finish (register : UInt32) : UInt32 := register ^^^ 0xffffffff

def ofBytes (bytes : List UInt8) : UInt32 := finish (bytes.foldl update start)

end FormWeave.Crc32
