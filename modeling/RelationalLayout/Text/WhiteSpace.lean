/-
White space of any script: the characters with the White_Space property of Unicode.
-/

namespace RelationalLayout

def isWhiteSpace (letter : Char) : Bool :=
  (9 ≤ letter.toNat && letter.toNat ≤ 13) ||
    letter.toNat ∈ [0x20, 0x85, 0xA0, 0x1680, 0x2028, 0x2029, 0x202F, 0x205F, 0x3000] ||
    (0x2000 ≤ letter.toNat && letter.toNat ≤ 0x200A)

end RelationalLayout
