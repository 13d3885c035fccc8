/-!
# Flags of a data item

Input, Output and Feature items carry one number whose bits say how the field behaves. Bit 7 has
a meaning for Output and Feature items only. Bits above 8 have none and are kept.
-/

namespace HidDescriptor

/-- The flag bits of an Input, Output or Feature item. -/
structure Flags where
  /-- All 32 bits, whatever the number of data bytes they were read from. -/
  bits : UInt32
  deriving DecidableEq, Repr

namespace Flags

def bit (flags : Flags) (i : Nat) : Bool := flags.bits.toNat.testBit i

/-- The field is constant, which usually means padding. Otherwise it carries data. -/
def isConstant (flags : Flags) : Bool := flags.bit 0

/-- Each element of the field is a control of its own. Otherwise the elements are an array. -/
def isVariable (flags : Flags) : Bool := flags.bit 1

def isRelative (flags : Flags) : Bool := flags.bit 2

/-- The value rolls over at the ends of its range. -/
def wraps (flags : Flags) : Bool := flags.bit 3

def isNonlinear (flags : Flags) : Bool := flags.bit 4

def hasNoPreferredState (flags : Flags) : Bool := flags.bit 5

/-- Values outside the logical range stand for "no data". -/
def hasNullState (flags : Flags) : Bool := flags.bit 6

def isVolatile (flags : Flags) : Bool := flags.bit 7

/-- The field is a string of bytes. Otherwise it is a number of bits. -/
def isBufferedBytes (flags : Flags) : Bool := flags.bit 8

/-- The flags in the notation of descriptor dumps, such as `Data,Var,Abs`: the first three are
always written, the others where they are set. -/
def describe (flags : Flags) : String :=
  let always := [
    if flags.isConstant then "Cnst" else "Data",
    if flags.isVariable then "Var" else "Arr",
    if flags.isRelative then "Rel" else "Abs"]
  let whereSet := [
    (flags.wraps, "Wrap"),
    (flags.isNonlinear, "NonLin"),
    (flags.hasNoPreferredState, "NoPref"),
    (flags.hasNullState, "Null"),
    (flags.isBufferedBytes, "Buff")]
  ",".intercalate (always ++ (whereSet.filter (·.1)).map (·.2))

end Flags

end HidDescriptor
