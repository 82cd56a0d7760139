import FormWeave.Checksum.Crc32
import FormWeave.Text.Utf8

/-!
# The checksum of a block

A CRC-32 over generated text that ignores layout: the white space at the start of every line is
skipped, so indentation and blank lines do not count, and carriage returns are dropped, so a file
with CRLF line ends counts like one with LF.
-/

namespace FormWeave.Checksum

/-- White space as the C locale has it: space, tab, line feed, vertical tab, form feed and
carriage return. -/
def isSpace (byte : UInt8) : Bool :=
  byte == 0x20 || byte == 0x09 || byte == 0x0a || byte == 0x0b || byte == 0x0c || byte == 0x0d

/-- A checksum over the bytes seen so far. `atLineStart` holds as long as only white space and
NUL bytes were seen on the current line. -/
structure Running where
  register : UInt32 := Crc32.start
  atLineStart : Bool := true
  deriving DecidableEq, Repr, Inhabited

namespace Running

def addByte (sum : Running) (byte : UInt8) : Running :=
  if sum.atLineStart && isSpace byte then sum
  else
    let atLineStart := sum.atLineStart && byte == 0
    if byte == 0x0d then { sum with atLineStart }
    else
      { register := Crc32.update sum.register byte
        atLineStart := byte == 0x0a || atLineStart }

def add (sum : Running) (bytes : Bytes) : Running := bytes.foldl addByte sum

def value (sum : Running) : UInt32 := Crc32.finish sum.register

@[simp] theorem add_nil (sum : Running) : sum.add [] = sum := rfl

@[simp] theorem add_cons (sum : Running) (b : UInt8) (bytes : Bytes) :
    sum.add (b :: bytes) = (sum.addByte b).add bytes := rfl

@[simp] theorem add_append (sum : Running) (xs ys : Bytes) :
    sum.add (xs ++ ys) = (sum.add xs).add ys := List.foldl_append

end Running

def ofBlock (block : Bytes) : UInt32 := (({} : Running).add block).value

end FormWeave.Checksum
