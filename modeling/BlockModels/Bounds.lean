/-!
# Ranges of whole numbers

The least and the greatest whole numbers of 32 and of 64 bits, without and with a sign.
-/

namespace BlockModels

/-- The greatest number of 32 bits. -/
def maxUnsigned32 : Nat := 4294967295

/-- The greatest number of 64 bits. -/
def maxUnsigned64 : Nat := 18446744073709551615

/-- The least number of 32 bits with a sign. -/
def minSigned32 : Int := -2147483648

/-- The greatest number of 32 bits with a sign. -/
def maxSigned32 : Int := 2147483647

/-- The least number of 64 bits with a sign. -/
def minSigned64 : Int := -9223372036854775808

/-- The greatest number of 64 bits with a sign. -/
def maxSigned64 : Int := 9223372036854775807

end BlockModels
