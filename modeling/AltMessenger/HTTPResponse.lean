import AltMessenger.HTTPRequest

/-!
What a route of the local HTTP server answers with at once.
-/
namespace HTTPResponse
open HTTPRequest

/-- The reasons of the codes that the modelled routes answer with. -/
def reasonMap : Nat → Option (List Char)
  | 200 => some "OK".toList
  | 400 => some "Bad Request".toList
  | 401 => some "Unauthorized".toList
  | 403 => some "Forbidden".toList
  | 404 => some "Not Found".toList
  | 409 => some "Conflict".toList
  | 423 => some "Locked".toList
  | 500 => some "Internal Server Error".toList
  | _ => none

structure Response where
  statusCode : Nat
  statusReason : Option (List Char)
  headers : Option Fields
  body : Option (List UInt8)
  deriving DecidableEq, Repr

/-- `init(request:code:)` -/
def Response.ofCode (code : Nat) : Response := ⟨code,reasonMap code,none,none⟩

/-- `init(request:code:json:)`, of JSON as it was serialized -/
def Response.ofJson (code : Nat) (json : List UInt8) : Response :=
  ⟨code,reasonMap code,some [("Content-Type".toList, ["application/json".toList])],some json⟩

end HTTPResponse
