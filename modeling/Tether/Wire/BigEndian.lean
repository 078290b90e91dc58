/-! Unsigned words as bytes, the most significant first. -/
namespace Tether.BigEndian

def ofUInt16 (n : UInt16) : List UInt8 := [(n >>> 8).toUInt8,n.toUInt8]

def ofUInt32 (n : UInt32) : List UInt8 :=
  [(n >>> 24).toUInt8,(n >>> 16).toUInt8,(n >>> 8).toUInt8,n.toUInt8]

def toUInt16 (a b : UInt8) : UInt16 := a.toUInt16 <<< 8 ||| b.toUInt16

def toUInt32 (a b c d : UInt8) : UInt32 :=
  a.toUInt32 <<< 24 ||| b.toUInt32 <<< 16 ||| c.toUInt32 <<< 8 ||| d.toUInt32

end Tether.BigEndian
