import SealedToken.Jwt.Basic
import SealedToken.Key.Description
import SealedToken.Key.Generate
import SealedToken.Key.Thumbprint
import SealedToken.Primitives.Standard
import SealedToken.Proofs.Algorithm
import SealedToken.Proofs.Header
import SealedToken.Proofs.Outcome
import SealedToken.Proofs.Run
import SealedToken.Proofs.Jws.Acceptance
import SealedToken.Proofs.Jws.Release
import SealedToken.Proofs.Deflate.Limit
import SealedToken.Proofs.Deflate.Steps
import SealedToken.Proofs.Deflate.Window
import SealedToken.Proofs.Jwe.Opening
import SealedToken.Proofs.Jwe.Release
import SealedToken.Proofs.Failure
import SealedToken.Proofs.KeyManagement.Failure
import SealedToken.Proofs.Jwe.Failure
import SealedToken.Proofs.Jwt.Authentication
import SealedToken.Proofs.Jwt.Checks
import SealedToken.Proofs.Jwt.Validation
import SealedToken.Proofs.Jwt.Release
import SealedToken.Proofs.Jwt.AllowList
import SealedToken.Proofs.Object
import SealedToken.Proofs.Header.Union
import SealedToken.Proofs.KeyManagement.Wrapping
import SealedToken.Proofs.Base64Url
import SealedToken.Proofs.Jwe.Recipients
import SealedToken.Proofs.Jwe.Moving
import SealedToken.Proofs.Jwe.Invariant
import SealedToken.Proofs.Jwe.Sharing
import SealedToken.Proofs.Jwe.Serialization
import SealedToken.Proofs.Jwt.Independence
import SealedToken.Proofs.Jws.Withdrawal
import SealedToken.Proofs.Jwt.Header
import SealedToken.Proofs.Text
import SealedToken.Proofs.Json.Number
import SealedToken.Proofs.Json.RoundTrip
import SealedToken.Proofs.Json.Record
import SealedToken.Proofs.Header.Written
import SealedToken.Proofs.Json.Plain
import SealedToken.Proofs.ContentEncryption
import SealedToken.Proofs.Key.Pair
import SealedToken.Proofs.KeyManagement.Recovery
import SealedToken.Proofs.Jwe.Reading
import SealedToken.Proofs.Jwe.Unlocking
import SealedToken.Proofs.Aes.Gcm
import SealedToken.Proofs.Jwe.Delivery
import SealedToken.Proofs.Jwe.Held
import SealedToken.Proofs.Jwe.Compaction
import SealedToken.Proofs.Bytes
import SealedToken.Proofs.Jwe.Binding
import SealedToken.Proofs.Jws.AnyValid
import SealedToken.Proofs.Jws.Reading
import SealedToken.Proofs.Signing
import SealedToken.Proofs.Jws.Signing
import SealedToken.Proofs.Json.NumberText
import SealedToken.Proofs.Json.Float
import SealedToken.Proofs.Json.Unambiguous
import SealedToken.Proofs.Json.Rereading
import SealedToken.Proofs.Header.Rereading
import SealedToken.Proofs.Jws.Binding
import SealedToken.Proofs.Json.Reading
import SealedToken.Proofs.Jws.RoundTrip
import SealedToken.Proofs.Jwe.RoundTrip
import SealedToken.Proofs.Verbatim
import SealedToken.Proofs.Jwt.RoundTrip
import SealedToken.Proofs.Forbidden
import SealedToken.Proofs.KeyManagement.Inverse
import SealedToken.Proofs.Jwe.Uniform
import SealedToken.Proofs.Jwt.Retention
import SealedToken.Proofs.Reentrancy
import SealedToken.Proofs.Key.Restriction
import SealedToken.Proofs.Jwt.Payload
import SealedToken.Proofs.Json.Streaming
import SealedToken.Proofs.Key.RoundTrip
import SealedToken.Proofs.Header.Merging
import SealedToken.Proofs.InPlace
import SealedToken.Proofs.Jwe.Addition
import SealedToken.Proofs.Jws.Addition
import SealedToken.Proofs.Bytes.Number
import SealedToken.Proofs.Der
import SealedToken.Proofs.Rsa.Key
import SealedToken.Proofs.Rsa.Signature
import SealedToken.Proofs.Rsa.Agreement
import SealedToken.Proofs.Jws.Detachment
import SealedToken.Proofs.Jwe.Representation
import SealedToken.Proofs.Jwe.AnyRecipient
import SealedToken.Proofs.ContentEncryption.Bounds
import SealedToken.Proofs.Aes.Field
import SealedToken.Proofs.Aes.Block
import SealedToken.Proofs.Aes.Cbc
import SealedToken.Proofs.ContentEncryption.Authentication
import SealedToken.Proofs.Jwt.Table
import SealedToken.Proofs.Jwt.Window
import SealedToken.Proofs.KeyManagement.Work
import SealedToken.Proofs.Deflate.Delivery
import SealedToken.Proofs.Deflate.Expansion
import SealedToken.Proofs.Deflate.Bits
import SealedToken.Proofs.Deflate.Coding
import SealedToken.Proofs.Deflate.Decoder
import SealedToken.Proofs.Deflate.Inflation
import SealedToken.Proofs.Jwt.Defaults
import SealedToken.Proofs.Jwt.Registered
import SealedToken.Proofs.Jwt.Dates
import SealedToken.Proofs.Relevance
import SealedToken.Proofs.Jws.Reporting
import SealedToken.Proofs.Jwe.Reporting
import SealedToken.Proofs.Reporting
import SealedToken.Proofs.KeyManagement.Derivation
import SealedToken.Proofs.Der.Distinguished
import SealedToken.Proofs.Key.Thumbprint
