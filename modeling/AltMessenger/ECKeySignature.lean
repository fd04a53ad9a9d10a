import AltMessenger.ECurve

/-!
Signatures of `ECKey`: `sign` draws its nonces from a source of random numbers until one gives
an `r`, and `verifySignature` checks a signature against a public point.
-/
namespace ECKeySignature
open SwiftRuntime FiniteFieldInteger ECurve
open BitcoinKeys (order)

abbrev Scalar := FFInt order

def zero : Scalar := ⟨0,by decide⟩

def one : Scalar := ⟨1,by decide⟩

/-- `secureRandom`: the first candidate below the maximum, and the candidates after it. -/
def secureRandom (max : Nat) : List Nat → Option (Nat × List Nat)
  | [] => none
  | candidate :: candidates =>
    if candidate < max then some (candidate, candidates) else secureRandom max candidates

/-- The `x` of an affine point, taken as a scalar. -/
def xScalar : ECPoint → Except Trap Scalar
  | .affine x _ => do
    let x ← unwrap x
    int order x.value
  | .jacobian _ _ _ => .error .assertion

/-- The inner loop of `sign`, with the nonce it ends on; without candidates it does not end. -/
def drawLoop : Nat → List Nat → Except Trap (Option (Nat × Scalar))
  | 0, _ => pure none
  | fuel + 1, candidates =>
    match secureRandom (order - 1) candidates with
    | none => pure none
    | some (k, candidates) =>
      if k = 0 then drawLoop fuel candidates
      else do
        let R ← mul k G
        let r ← xScalar R
        if r = zero then drawLoop fuel candidates else pure (some (k, r))

def maximum : Nat := 0x7FFFFFFFFFFFFFFFFFFFFFFFFFFFFFFF5D576E7357A4501DDFE92F46681B20A0

/-- What `sign` returns, if it does, for these candidates. -/
def sign (privateKey digest : Nat) (candidates : List Nat) : Except Trap (Option (Nat × Nat)) := do
  let e ← int order digest
  let drawn ← drawLoop (candidates.length + 1) candidates
  match drawn with
  | none => pure none
  | some (k, r) => do
    let k ← int order k
    let d ← int order privateKey
    let s := one / k * (e + r * d)
    -- the outer loop would compute the same `s` again and again
    if s = zero then pure none
    else pure (some (r.value, if s.value > maximum then order - s.value else s.value))

def verifySignature (digest r s : Nat) (publicKey : ECPoint) : Except Trap Bool := do
  let e ← int order digest
  if r = 0 ∨ order ≤ r ∨ s = 0 ∨ order ≤ s then pure false
  else do
    let s ← int order s
    let w := one / s
    let u1 := e * w
    let r ← int order r
    let u2 := r * w
    let lhs ← mul u1.value G
    let rhs ← mul u2.value publicKey
    let P ← lhs.add rhs
    let px ← xScalar P
    pure (decide (px = r))

/-- The public point of a private key. -/
def publicKeyPoint (privateKey : Nat) : Except Trap ECPoint := mul privateKey G

end ECKeySignature
