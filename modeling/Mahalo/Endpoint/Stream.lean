/-
The receiving side of `MahaloStream`, and the buffer operations of its readers.

The kernel and the TLS layer decide how a byte stream is cut, so a connection's
input is a list of segments and the way it ends.  `read` fills a buffer of `len`
bytes; both runtimes behind it ignore the `Vec`'s length and use its capacity,
which is why a segment carries the spare capacity the allocator happened to give.
A read into an empty buffer returns 0, which its callers take for the end of the
stream.
-/
import Mahalo.Lib.Segments

namespace Mahalo

open Segments

/-- `DEFAULT_BUF_SIZE` -/
def defaultBufSize : Nat := 8192

/-- What a connection has yet to receive, and whether it ends in an error. -/
structure Incoming where
  segs : List (Segment UInt8)
  reset : Bool

inductive ReadResult where
  | ok (bytes : List UInt8)
  | err
  deriving DecidableEq, Repr

/-- Every byte that has yet to arrive. -/
def Incoming.bytes (inc : Incoming) : List UInt8 := pending inc.segs

/-- How far a read into a `Vec` of `len` bytes may go. -/
def vecLimit (len : Nat) (seg : Segment UInt8) : Nat := if len = 0 then 0 else len + seg.spare

def Incoming.readUpTo (limit : Segment UInt8 → Nat) (inc : Incoming) : ReadResult × Incoming :=
  if inc.segs.isEmpty && inc.reset then (.err, inc)
  else (.ok (pull limit inc.segs).1, { inc with segs := (pull limit inc.segs).2 })

/-- `MahaloStream::read` with a buffer of `len` bytes. -/
def Incoming.read (len : Nat) (inc : Incoming) : ReadResult × Incoming :=
  inc.readUpTo (vecLimit len)

/-- `MahaloStream::read_lease` on a plain connection: a leased buffer of `DEFAULT_BUF_SIZE` bytes. -/
def Incoming.readLease (inc : Incoming) : ReadResult × Incoming :=
  inc.readUpTo fun _ => defaultBufSize

/-! ### `Vec` operations -/

/-- `Vec::resize` with zeros. -/
def resize (buf : List UInt8) (n : Nat) : List UInt8 :=
  buf.take n ++ List.replicate (n - buf.length) 0

/-- `buf.copy_within(lo..hi, 0)` -/
def copyWithin (buf : List UInt8) (lo hi : Nat) : List UInt8 :=
  (buf.take hi).drop lo ++ buf.drop (hi - lo)

end Mahalo
