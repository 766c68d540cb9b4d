import SourceDocs.Digest.Sha256

set_option autoImplicit false

/-! # Keyed digests: HMAC over SHA-256 -/

namespace SourceDocs.Hmac

/-- A key as a whole block. A key longer than a block counts as its digest. -/
def blockOf (key : List UInt8) : List UInt8 :=
  let key := if key.length > 64 then Sha256.digest key else key
  key ++ List.replicate (64 - key.length) 0

/-- The digest of a message under a key. -/
def digest (key message : List UInt8) : List UInt8 :=
  let block := blockOf key
  Sha256.digest (block.map (· ^^^ 0x5c) ++ Sha256.digest (block.map (· ^^^ 0x36) ++ message))

end SourceDocs.Hmac
