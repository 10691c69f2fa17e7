/-!
# The trace format

A trace is a header and then records, one after the other, with nothing between
them and nothing after the last.  All numbers are big-endian.

The header is the four bytes of the magic number, the major version and the
minor version, each version in four bytes.

A record is a scope and an event.

* The scope starts with four bytes of flags.  The time of the simulation
  follows if its flag is set: eight bytes, a double.  The node follows if its
  flag is set: its number in two bytes, its cycles in eight and its milliseconds
  in eight, a double.  For every other flag that is set, lowest bit first, there
  follows a body that this version skips: its length in two bytes, and the body.
* The event starts with the number of its kind in two bytes and the length of its
  payload in four.  The payload follows.

Versions of one major number read each other.  A newer minor version may add
scope flags and kinds of event, and the lengths let an older one skip both.

This module holds the numbers of the format.
-/

namespace StateTrace.Wire

/-- The first bytes of a trace: `ctkt`. -/
def magic : List UInt8 := [0x63, 0x74, 0x6b, 0x74]

/-- The major version that this library reads and writes. -/
def majorVersion : UInt32 := 1

/-- The newest minor version whose flags and kinds this library knows. -/
def minorVersion : UInt32 := 0

/-- The length of the header in bytes. -/
def headerLength : Nat := 12

/-- The longest payload that is read, in bytes. -/
def maxPayloadLength : Nat := 1048576

/-- The length of the part of a data payload before the data: context, entity
and the length of the data. -/
def dataHeaderLength : Nat := 8

/-- The magic number and two versions of four bytes make the header. -/
example : headerLength = magic.length + 4 + 4 := by decide

end StateTrace.Wire
