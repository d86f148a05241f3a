/-!
Where numbers have powers and byte arrays are compared, more than one instance can
apply as soon as other libraries are loaded. The instances are equal; preferred here
are those of the core library, so that every module means the same by the same text.
-/

namespace SealedToken

@[default_instance 20000]
instance (priority := 20000) naturalPower {α : Type} [NatPow α] : Pow α Nat := instPowNat

instance (priority := 20000) byteArrayEq : DecidableEq ByteArray := ByteArray.instDecidableEq

end SealedToken
