import AltMessenger.BitcoinHash

/-!
The scripts the wallet understands. A script is read from a stream of its own,
and what follows the part that was recognised is not looked at. A hash cut off
by the end of the script is a fault, not a refusal: the width is asserted.
-/
namespace BitcoinScript
open ByteReader SwiftRuntime BitcoinStream BitcoinHash

inductive OPCode where
  | OP_0 | OP_PUSHDATA1 | OP_PUSHDATA2 | OP_PUSHDATA4
  | OP_1 | OP_2 | OP_3 | OP_4 | OP_5 | OP_6 | OP_7 | OP_8
  | OP_9 | OP_10 | OP_11 | OP_12 | OP_13 | OP_14 | OP_15 | OP_16
  | OP_RETURN | OP_DUP | OP_EQUAL | OP_EQUALVERIFY | OP_HASH160
  | OP_CHECKSIG | OP_CHECKSIGVERIFY | OP_CHECKMULTISIG | OP_CHECKMULTISIGVERIFY
  deriving DecidableEq, Repr

def OPCode.rawValue : OPCode → UInt8
  | .OP_0 => 0x00
  | .OP_PUSHDATA1 => 0x4c
  | .OP_PUSHDATA2 => 0x4d
  | .OP_PUSHDATA4 => 0x4e
  | .OP_1 => 0x51
  | .OP_2 => 0x52
  | .OP_3 => 0x53
  | .OP_4 => 0x54
  | .OP_5 => 0x55
  | .OP_6 => 0x56
  | .OP_7 => 0x57
  | .OP_8 => 0x58
  | .OP_9 => 0x59
  | .OP_10 => 0x5a
  | .OP_11 => 0x5b
  | .OP_12 => 0x5c
  | .OP_13 => 0x5d
  | .OP_14 => 0x5e
  | .OP_15 => 0x5f
  | .OP_16 => 0x60
  | .OP_RETURN => 0x6a
  | .OP_DUP => 0x76
  | .OP_EQUAL => 0x87
  | .OP_EQUALVERIFY => 0x88
  | .OP_HASH160 => 0xa9
  | .OP_CHECKSIG => 0xac
  | .OP_CHECKSIGVERIFY => 0xad
  | .OP_CHECKMULTISIG => 0xae
  | .OP_CHECKMULTISIGVERIFY => 0xaf

def OPCode.all : List OPCode :=
  [.OP_0, .OP_PUSHDATA1, .OP_PUSHDATA2, .OP_PUSHDATA4, .OP_1, .OP_2, .OP_3, .OP_4, .OP_5, .OP_6,
    .OP_7, .OP_8, .OP_9, .OP_10, .OP_11, .OP_12, .OP_13, .OP_14, .OP_15, .OP_16, .OP_RETURN,
    .OP_DUP, .OP_EQUAL, .OP_EQUALVERIFY, .OP_HASH160, .OP_CHECKSIG, .OP_CHECKSIGVERIFY,
    .OP_CHECKMULTISIG, .OP_CHECKMULTISIGVERIFY]

/-- `OPCode(rawValue:)` -/
def OPCode.ofRaw (raw : UInt8) : Option OPCode :=
  OPCode.all.find? (fun code => code.rawValue == raw)

def readOPCode : Stream OPCode := do
  let raw ← readUInt8
  match OPCode.ofRaw raw with
  | some code => pure code
  | none => fail

/-- `if stream.readOPCode() != code { return nil }` -/
def expectOPCode (code : OPCode) : Stream Unit := do
  let read ← readOPCode
  if read = code then pure () else fail

/-- `if stream.readUInt8() != byte { return nil }` -/
def expectUInt8 (byte : UInt8) : Stream Unit := do
  let read ← readUInt8
  if read = byte then pure () else fail

structure P2PKH_OutputScript where
  hash160 : RIPEMD160HASH
  deriving DecidableEq

def P2PKH_OutputScript.bitcoinData (script : P2PKH_OutputScript) : List UInt8 :=
  [OPCode.OP_DUP.rawValue, OPCode.OP_HASH160.rawValue, 0x14] ++ script.hash160.bitcoinData ++
    [OPCode.OP_EQUALVERIFY.rawValue, OPCode.OP_CHECKSIG.rawValue]

def P2PKH_OutputScript.fromBitcoinStream : Stream P2PKH_OutputScript := do
  expectOPCode .OP_DUP
  expectOPCode .OP_HASH160
  expectUInt8 0x14
  let hash160 ← HashOf.fromBitcoinStream 20
  expectOPCode .OP_EQUALVERIFY
  expectOPCode .OP_CHECKSIG
  pure { hash160 }

structure P2SH_OutputScript where
  hash160 : RIPEMD160HASH
  deriving DecidableEq

def P2SH_OutputScript.bitcoinData (script : P2SH_OutputScript) : List UInt8 :=
  [OPCode.OP_HASH160.rawValue, 0x14] ++ script.hash160.bitcoinData ++ [OPCode.OP_EQUAL.rawValue]

def P2SH_OutputScript.fromBitcoinStream : Stream P2SH_OutputScript := do
  expectOPCode .OP_HASH160
  expectUInt8 0x14
  let hash160 ← HashOf.fromBitcoinStream 20
  expectOPCode .OP_EQUAL
  pure { hash160 }

/-- The `type` of the source says which of its two optional scripts is set. -/
inductive OutputScript where
  | P2PKH : P2PKH_OutputScript → OutputScript
  | P2SH : P2SH_OutputScript → OutputScript
  deriving DecidableEq

def OutputScript.hash160 : OutputScript → RIPEMD160HASH
  | .P2PKH script => script.hash160
  | .P2SH script => script.hash160

def OutputScript.typeString : OutputScript → List Char
  | .P2PKH _ => ['P','2','P','K','H']
  | .P2SH _ => ['P','2','S','H']

/-- A stream opened on the data and read once: what is left over is dropped. -/
def readOnce {α : Type} (reader : Stream α) (data : List UInt8) : Except Trap (Option α) :=
  match reader data with
  | .trap e => .error e
  | .fail => .ok none
  | .ok a _ => .ok (some a)

def OutputScript.ofData (data : List UInt8) : Except Trap (Option OutputScript) := do
  let P2PKH_script ← readOnce P2PKH_OutputScript.fromBitcoinStream data
  match P2PKH_script with
  | some script => pure (some (.P2PKH script))
  | none => do
    let P2SH_script ← readOnce P2SH_OutputScript.fromBitcoinStream data
    pure (P2SH_script.map .P2SH)

inductive InputScriptSigType where
  | P2PKH | P2SH
  deriving DecidableEq, Repr

structure InputScriptSig where
  derSignature : List UInt8
  publicKey : List UInt8
  type : InputScriptSigType
  deriving DecidableEq

def InputScriptSig.typeString (script : InputScriptSig) : List Char :=
  match script.type with
  | .P2PKH => ['P','2','P','K','H']
  | .P2SH => ['P','2','S','H']

def InputScriptSig.parts : Stream (List UInt8 × List UInt8) := do
  let derSignatureLength ← readUInt8
  let derSignature ← readData derSignatureLength.toNat
  let publicKeyLength ← readUInt8
  let publicKey ← readData publicKeyLength.toNat
  pure (derSignature,publicKey)

/-- `InputScriptSig(data:)`; the first byte of the key is taken without asking
    whether there is one. -/
def InputScriptSig.ofData (data : List UInt8) : Except Trap (Option InputScriptSig) :=
  if data.length = 0 then .ok none
  else do
    let read ← readOnce InputScriptSig.parts data
    match read with
    | none => pure none
    | some (derSignature,publicKey) => do
      let first ← subscript publicKey 0
      let type := if first = 0x02 ∨ first = 0x03 ∨ first = 0x04 then InputScriptSigType.P2PKH
        else .P2SH
      pure (some { derSignature, publicKey, type })

def InputScriptSig.hash160 (D : Digests) (script : InputScriptSig) : Except Trap RIPEMD160HASH := do
  let ripemd ← Hash160.digest D script.publicKey
  HashOf.ofData 20 ripemd

end BitcoinScript
