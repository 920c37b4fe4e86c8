import Microcomputer.Word

/-! The 24-bit address range in which every access is resolved. -/

namespace Microcomputer

/-- A resolved address. -/
abbrev Address := BitVec 24

namespace Address

/-- The greatest address. -/
def last : Nat := 0xFFFFFF

/-- The address that a word denotes: its low 24 bits. -/
def ofWord (a : Word) : Address := a.setWidth 24

end Address

end Microcomputer
