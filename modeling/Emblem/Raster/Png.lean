/-
Module: Emblem.Raster.Png
Purpose: Pictures as PNG files: eight bits for each of four channels, unfiltered rows, and a data
  stream that is stored rather than compressed.
Main exports: Picture.toPng
-/
import Emblem.Raster.Picture

namespace Emblem

namespace Png

/-- A natural below `2 ^ 32` as four octets, the most significant first. -/
def word (n : Nat) : List UInt8 :=
  [(n >>> 24).toUInt8, (n >>> 16).toUInt8, (n >>> 8).toUInt8, n.toUInt8]

/-- A natural below `2 ^ 16` as two octets, the least significant first. -/
def shortWord (n : Nat) : List UInt8 :=
  [n.toUInt8, (n >>> 8).toUInt8]

/-- One bit of a cyclic redundancy check, in the reversed order of bits. -/
def crcBit (crc : UInt32) : UInt32 :=
  if crc &&& 1 = 1 then (0xEDB88320 : UInt32) ^^^ (crc >>> 1) else crc >>> 1

/-- One octet of a cyclic redundancy check. -/
def crcOctet (crc : UInt32) (b : UInt8) : UInt32 :=
  Nat.repeat crcBit 8 (crc ^^^ b.toUInt32)

/-- The cyclic redundancy check of octets. -/
def crc (data : ByteArray) : UInt32 :=
  data.foldl crcOctet (0xFFFFFFFF : UInt32) ^^^ (0xFFFFFFFF : UInt32)

/-- The two sums of the check of a data stream. -/
def adlerOctet (sums : UInt32 × UInt32) (b : UInt8) : UInt32 × UInt32 :=
  let low := (sums.1 + b.toUInt32) % 65521
  (low, (sums.2 + low) % 65521)

/-- The check of a data stream. -/
def adler (data : ByteArray) : UInt32 :=
  let (low, high) := data.foldl adlerOctet (1, 0)
  (high <<< 16) ||| low

/-- Appends octets. -/
def put (data : ByteArray) (octets : List UInt8) : ByteArray :=
  octets.foldl ByteArray.push data

/-- A chunk: its length, its name, its data and the check of name and data. -/
def chunk (name : String) (data : ByteArray) : ByteArray :=
  let named := name.toUTF8 ++ data
  put (put .empty (word data.size) ++ named) (word (crc named).toNat)

/-- The greatest length of a stored block. -/
def blockLimit : Nat := 65535

/-- Appends data in stored blocks, at most `blocks` of them; the last one is marked. -/
def putBlocks : Nat → ByteArray → ByteArray → ByteArray
  | 0, out, _ => out
  | blocks + 1, out, data =>
    let size := min blockLimit data.size
    let last := data.size ≤ blockLimit
    let head := (if last then 1 else 0) :: shortWord size ++ shortWord (blockLimit - size)
    let out := put out head ++ data.extract 0 size
    if last then out else putBlocks blocks out (data.extract size data.size)

/-- Data as a stream. -/
def stream (data : ByteArray) : ByteArray :=
  let out := putBlocks (data.size / blockLimit + 1) (put .empty [0x78, 0x01]) data
  put out (word (adler data).toNat)

/-- Appends a row of pixels after the mark of an unfiltered row. -/
def putRow (p : Picture) (out : ByteArray) (row : Nat) : ByteArray :=
  (List.range p.width).foldl
    (fun out column =>
      let x := p.pixelAt column row
      (((out.push x.red).push x.green).push x.blue).push x.alpha)
    (out.push 0)

/-- The rows of a picture. -/
def rows (p : Picture) : ByteArray :=
  (List.range p.height).foldl (putRow p) .empty

/-- The octets that every file starts with. -/
def signature : List UInt8 :=
  [0x89, 0x50, 0x4E, 0x47, 0x0D, 0x0A, 0x1A, 0x0A]

/-- The size of a picture and the format of its pixels. -/
def header (p : Picture) : ByteArray :=
  put .empty (word p.width ++ word p.height ++ [8, 6, 0, 0, 0])

end Png

def Picture.toPng (p : Picture) : ByteArray :=
  Png.put .empty Png.signature ++ Png.chunk "IHDR" (Png.header p) ++
    Png.chunk "IDAT" (Png.stream (Png.rows p)) ++ Png.chunk "IEND" .empty

end Emblem
