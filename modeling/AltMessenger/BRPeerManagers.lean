import AltMessenger.BRMerkleBlocks
import AltMessenger.BRSets
import AltMessenger.BRWalletOperations
import AltMessenger.KeptForests

/-!
The chain of blocks that the core follows. Its peers relay blocks one after another, each of which
is put to the chain, to a fork or to the orphans, and the wallet is told of the transactions in it.
There is no result where a missing block is read, or one that was freed, and where an assertion
fails. What is only said to peers is left out, and with it `lastOrphan` and the rate of false
positives.
-/
namespace BRPeerManagers
open LinearProbing BRSets WalletDatabase BRMerkleBlocks BRTransactions BRWallets BRWalletOperations
open KeptForests

structure Checkpoint where
  height : UInt32
  hash : UInt256
  timestamp : UInt32
  target : UInt32

/-- Those of the main net -/
def checkpoint_array : List Checkpoint := [
  ⟨0,0x19d6689c085ae165831e934ff763ae46a2a6c172b3f1b60a8ce26f,1231006505,0x1d00ffff⟩,
  ⟨20160,0xf1aef56190aee63d33a373e6487132d522ff4cd98ccfc96566d461e,1248481816,0x1d00ffff⟩,
  ⟨40320,0x45861e169b5a961b7034f8de9e98022e7a39100dde3ae3ea240d7245,1266191579,0x1c654657⟩,
  ⟨60480,0x632e22ce73ed38f46d5b408ff1cff2cc9e10daaf437dfd655153837,1276298786,0x1c0eba64⟩,
  ⟨80640,0x307c80b87edf9f6a0697e2f01db67e518c8a4d6065d1d859a3a659,1284861847,0x1b4766ed⟩,
  ⟨100800,0xe383d43cc471c64a9a4a46794026989ef4ff9611d5acb704e47a,1294031411,0x1b0404cb⟩,
  ⟨120960,0x2c920cf7e4406b969ae9c807b5c4f271f490ca3de1b0770836fc,1304131980,0x1b0098fa⟩,
  ⟨141120,0x2d214e1af085eda0a780a8446698ab5c0128b6392e189886114,1313451894,0x1a094a86⟩,
  ⟨161280,0x5911fe26209de7ff510a8306475b75ceffd434b68dc31943b99,1326047176,0x1a0d69d7⟩,
  ⟨181440,0xe527fc19df0992d58c12b98ef5a17544696bbba67812ef0e64,1337883029,0x1a0a8b5f⟩,
  ⟨201600,0x3a5e28bef30ad31f1f9be706e91ae9dda54179a95c9f9cd9ad0,1349226660,0x1a057e08⟩,
  ⟨221760,0xfc85dd77ea5ed6020f9e333589392560b40908d3264bd1f401,1361148470,0x1a04985c⟩,
  ⟨241920,0xb79f259ad14635739aaf0cc48875874b6aeecc7308267b50fa,1371418654,0x1a00de15⟩,
  ⟨262080,0xaa77be1c33deac6b8d3b7b0757d02ce72fffddc768235d0e2,1381070552,0x1916b0ca⟩,
  ⟨282240,0xef9ee7529607286669763763e0c46acfdefd8a2306de5ca8,1390570126,0x1901f52c⟩,
  ⟨302400,0x472132c4daaf358acaf461ff1c3e96577a74e5ebf91bb170,1400928750,0x18692842⟩,
  ⟨322560,0x2df2dd9d4fe0578392e519610e341dd09025469f101cfa1,1411680080,0x181fb893⟩,
  ⟨342720,0xf9cfece8494800d3dcbf9583232825da640c8703bcd27e7,1423496415,0x1818bb87⟩,
  ⟨362880,0x14898b8e6538392702ffb9450f904c80ebf9d82b519a77d5,1435475246,0x1816418e⟩,
  ⟨383040,0xa974fa1a3f84055ad5ef0b2f96328bc96310ce83da801c9,1447236692,0x1810b289⟩,
  ⟨403200,0xc4272a5c68b4f55e5af734e88ceab09abf73e9ac3b6d01,1458292068,0x1806a4c3⟩,
  ⟨423360,0x1630546cde8482cc183708f076a5e4d6f51cd24518e8f85,1470163842,0x18057228⟩,
  ⟨443520,0x345d0c7890b2c81ab5139c6e83400e5bed00d23a1f8d239,1481765313,0x18038b85⟩,
  ⟨463680,0x431a2f4619afe62357cd16589b638bb638f2992058d88e,1493259601,0x18021b3e⟩]

theorem some_checkpoint : checkpoint_array ≠ [] := List.cons_ne_nil _ _

/-- `BRMerkleBlockNew` -/
def BRMerkleBlockNew : BRMerkleBlock where
  blockHash := 0
  version := 0
  prevBlock := 0
  merkleRoot := 0
  timestamp := 0
  target := 0
  nonce := 0
  totalTx := 0
  hashes := []
  hashesCount := 0
  flags := []
  flagsLen := 0
  height := BLOCK_UNKNOWN_HEIGHT

def checkpointBlock (checkpoint : Checkpoint) : BRMerkleBlock :=
  { BRMerkleBlockNew with
    height := checkpoint.height
    blockHash := checkpoint.hash
    timestamp := checkpoint.timestamp
    target := checkpoint.target }

/-- A week -/
def WEEK : UInt32 := 7 * 24 * 60 * 60

section Sets

/-- `BRMerkleBlockHash` and `BRMerkleBlockEq` -/
def byHash : Keys BRMerkleBlock where
  hash block := block.blockHash.toNat % 2 ^ 32
  eq block other := block.blockHash == other.blockHash
  refl _ := beq_self_eq_true _
  symm same := beq_iff_eq.mpr (beq_iff_eq.mp same).symm
  trans same equal := beq_iff_eq.mpr ((beq_iff_eq.mp same).trans (beq_iff_eq.mp equal))
  hash_eq same := by rw [beq_iff_eq.mp same]

/-- `_BRPrevBlockHash` and `_BRPrevBlockEq` -/
def byPrevBlock : Keys BRMerkleBlock where
  hash block := block.prevBlock.toNat % 2 ^ 32
  eq block other := block.prevBlock == other.prevBlock
  refl _ := beq_self_eq_true _
  symm same := beq_iff_eq.mpr (beq_iff_eq.mp same).symm
  trans same equal := beq_iff_eq.mpr ((beq_iff_eq.mp same).trans (beq_iff_eq.mp equal))
  hash_eq same := by rw [beq_iff_eq.mp same]

/-- `_BRBlockHeightHash` and `_BRBlockHeightEq` -/
def byHeight : Keys BRMerkleBlock where
  hash block := ((0x811C9dc5 ^^^ block.height) * 0x01000193).toNat
  eq block other := block.height == other.height
  refl _ := beq_self_eq_true _
  symm same := beq_iff_eq.mpr (beq_iff_eq.mp same).symm
  trans same equal := beq_iff_eq.mpr ((beq_iff_eq.mp same).trans (beq_iff_eq.mp equal))
  hash_eq same := by rw [beq_iff_eq.mp same]

/-- A hash, taken for a block, which begins with its own -/
def named (blockHash : UInt256) : BRMerkleBlock := { BRMerkleBlockNew with blockHash }

/-- `orphan`, with the hash of the block before it -/
def orphanOf (prevBlock : UInt256) : BRMerkleBlock := { BRMerkleBlockNew with prevBlock }

/-- `BRSetGet(manager->blocks, &block->prevBlock)` -/
def previous (blocks : List BRMerkleBlock) (block : BRMerkleBlock) : Option BRMerkleBlock :=
  lookup byHash blocks (named block.prevBlock)

def heightOf (block : BRMerkleBlock) : Nat := block.height.toNat

end Sets

structure BRPeerManager where
  wallet : BRWallet
  earliestKeyTime : UInt32
  blocks : List BRMerkleBlock
  /-- one for each hash of a block before them -/
  orphans : List BRMerkleBlock
  /-- one for each height -/
  checkpoints : List BRMerkleBlock
  lastBlock : BRMerkleBlock
  estimatedHeight : UInt32

section Loading

/-- The manager before it is given blocks -/
def fromCheckpoints (wallet : BRWallet) (earliestKeyTime : UInt32) : BRPeerManager where
  wallet
  earliestKeyTime
  blocks := (checkpoint_array.map checkpointBlock).foldl (insert byHash) []
  orphans := []
  checkpoints := (checkpoint_array.map checkpointBlock).foldl (insert byHeight) []
  lastBlock := checkpoint_array.tail.foldl
    (fun lastBlock checkpoint =>
      if checkpoint.timestamp + WEEK < earliestKeyTime then checkpointBlock checkpoint
      else lastBlock)
    (checkpointBlock (checkpoint_array.head some_checkpoint))
  estimatedHeight := 0

/-- The first of the highest blocks at a difficulty transition -/
def lastTransition (blocks : List BRMerkleBlock) : Option BRMerkleBlock :=
  blocks.foldl (fun block b =>
    if b.height % BLOCK_DIFFICULTY_INTERVAL = 0 ∧ ∀ t ∈ block, t.height < b.height then some b
    else block) none

/-- The loop that puts one block after another to the chain -/
def follow : Nat → BRPeerManager → Option BRMerkleBlock → Option BRPeerManager
  | _, manager, none => some manager
  | 0, _, some _ => none
  | fuel + 1, manager, some block =>
    let orphans := remove byPrevBlock manager.orphans (orphanOf block.prevBlock)
    follow fuel
      { manager with
        blocks := insert byHash manager.blocks block
        lastBlock := block
        orphans }
      (lookup byPrevBlock orphans (orphanOf block.blockHash))

/-- Each turn but the first takes one of the blocks, so that there are at most two more. -/
def BRPeerManagerNew (wallet : BRWallet) (earliestKeyTime : UInt32)
    (blocks : List BRMerkleBlock) : Option BRPeerManager :=
  if ∀ block ∈ blocks, block.height ≠ BLOCK_UNKNOWN_HEIGHT then
    follow (blocks.length + 2)
      { fromCheckpoints wallet earliestKeyTime with
        orphans := blocks.foldl (insert byPrevBlock) [] }
      (lastTransition blocks)
  else none

end Loading

section Verifying

/-- The loop that frees some memory: the blocks behind this hash are freed, other than those at
    difficulty transitions. -/
def freeBehind : Nat → List BRMerkleBlock → UInt256 → Option (List BRMerkleBlock)
  | 0, _, _ => none
  | fuel + 1, blocks, prevBlock =>
    match lookup byHash blocks (named prevBlock) with
    | none => some blocks
    | some b =>
      freeBehind fuel
        (if b.height % BLOCK_DIFFICULTY_INTERVAL ≠ 0 then remove byHash blocks b else blocks)
        b.prevBlock

/-- `_BRPeerManagerVerifyBlock`, with the blocks that it leaves -/
def BRPeerManagerVerifyBlock (manager : BRPeerManager) (block prev : BRMerkleBlock) :
    Option (Bool × List BRMerkleBlock) :=
  let verified (transitionTime : UInt32) : Bool :=
    BRMerkleBlockVerifyDifficulty block prev transitionTime &&
      (lookup byHeight manager.checkpoints block).all fun checkpoint =>
        block.blockHash == checkpoint.blockHash
  if block.height % BLOCK_DIFFICULTY_INTERVAL = 0 then
    match ancestor (previous manager.blocks) BLOCK_DIFFICULTY_INTERVAL.toNat block with
    | none => some (false,manager.blocks)
    | some b => do
      -- each block that is freed is lower than the one before
      let blocks ← freeBehind (heightOf b + 1) manager.blocks b.prevBlock
      some (verified b.timestamp,blocks)
  else some (verified 0,manager.blocks)

end Verifying

/-- What a call finds around it: what the wallet finds, the last block that the peer told of, and
    whether there is a bloom filter, or an update of it is pending -/
structure Relay where
  call : Call
  peerLastBlock : UInt32
  filtered : Bool

/-- What was made of a block: the manager, the block unless it was freed, and how many blocks to
    save -/
structure Placed where
  manager : BRPeerManager
  block : Option BRMerkleBlock
  saveCount : Nat

section Relaying
variable (address : BRTxOutput → Address) (relay : Relay) (manager : BRPeerManager)

/-- `_BRPeerManagerUpdateTx`, where there is any transaction -/
def updateTx (wallet : BRWallet) (txHashes : List UInt256) (blockHeight timestamp : UInt32) :
    Option BRWallet :=
  if txHashes = [] then some wallet
  else BRWalletUpdateTransactions address relay.call wallet txHashes blockHeight timestamp

/-- As many blocks as there are back to the transition before the last, when the download is
    complete -/
def completeCount (block : BRMerkleBlock) : Nat :=
  (block.height % BLOCK_DIFFICULTY_INTERVAL).toNat + BLOCK_DIFFICULTY_INTERVAL.toNat + 1

/-- A new block extends the main chain. -/
def extendChain (block : BRMerkleBlock) (txHashes : List UInt256) (txTime : UInt32) :
    Option Placed := do
  let wallet ← updateTx address relay manager.wallet txHashes block.height txTime
  some
    { manager := { manager with
        blocks := insert byHash manager.blocks block
        lastBlock := block
        wallet }
      block := some block
      saveCount :=
        if block.height = manager.estimatedHeight then completeCount block
        else if block.height % BLOCK_DIFFICULTY_INTERVAL = 0 then 1
        else 0 }

/-- The block was there already. -/
def replaceBlock (block : BRMerkleBlock) (txHashes : List UInt256) (txTime : UInt32) :
    Option Placed := do
  let b ← descend (previous manager.blocks) heightOf (heightOf block)
    (heightOf manager.lastBlock + 1) manager.lastBlock
  -- `BRMerkleBlockEq` reads what may be `NULL`
  let b ← b
  let blocks := insert byHash manager.blocks block
  if b.blockHash = block.blockHash then
    let wallet ← updateTx address relay manager.wallet txHashes block.height txTime
    some
      { manager := { manager with
          blocks
          lastBlock :=
            if block.height = manager.lastBlock.height then block else manager.lastBlock
          wallet }
        block := some block
        saveCount := 0 }
  else some ⟨{ manager with blocks },some block,0⟩

/-- The loop that sets the heights of the transactions of the new main chain -/
def confirmFork (blocks : List BRMerkleBlock) (limit : Nat) :
    Nat → BRWallet → BRMerkleBlock → Option BRWallet
  | 0, _, _ => none
  | fuel + 1, wallet, b =>
    if limit < heightOf b then do
      let txHashes ← BRMerkleBlockTxHashes b
      let prev := previous blocks b
      let timestamp := match prev with
        | some prev => b.timestamp / 2 + prev.timestamp / 2
        | none => b.timestamp
      let wallet ← updateTx address relay wallet txHashes b.height timestamp
      match prev with
      | none => some wallet
      | some prev => confirmFork blocks limit fuel wallet prev
    else some wallet

/-- A new block is on a fork, which may be longer than the main chain now. -/
def extendFork (block : BRMerkleBlock) : Option Placed :=
  let manager := { manager with blocks := insert byHash manager.blocks block }
  if manager.lastBlock.height < block.height then do
    let (b,b2) ← meet (previous manager.blocks) heightOf BRMerkleBlock.blockHash
      (heightOf block + 1) block manager.lastBlock
    -- its height is read, where it may be `NULL`
    let b ← b
    let wallet ← BRWalletSetTxUnconfirmedAfter address relay.call manager.wallet b.height
    let wallet ← match b2 with
      | none => some wallet
      | some b2 =>
        confirmFork address relay manager.blocks (heightOf b2) (heightOf block + 1) wallet block
    some
      { manager := { manager with wallet, lastBlock := block }
        block := some block
        saveCount := if block.height = manager.estimatedHeight then completeCount block else 0 }
  else some ⟨manager,some block,0⟩

/-- Where a block with one before it is put that was verified -/
def placeVerified (block : BRMerkleBlock) (txHashes : List UInt256) (txTime : UInt32) :
    Option Placed :=
  if manager.lastBlock ∉ manager.blocks then none -- the pointer to it is to freed memory
  else if block.prevBlock = manager.lastBlock.blockHash then
    extendChain address relay manager block txHashes txTime
  else if (lookup byHash manager.blocks block).isSome then
    replaceBlock address relay manager block txHashes txTime
  else if manager.lastBlock.height < relay.peerLastBlock ∧
      manager.lastBlock.height + 1 < block.height then
    some ⟨{ manager with orphans := insert byPrevBlock manager.orphans block },some block,0⟩
  else if block.height ≤ (checkpoint_array.getLast some_checkpoint).height then
    some ⟨manager,none,0⟩
  else extendFork address relay manager block

/-- What is done with a block. Headers are not taken near the first key. -/
def placeBlock (block : BRMerkleBlock) : Option Placed := do
  let txHashes ← BRMerkleBlockTxHashes block
  match previous manager.blocks block with
  | none =>
    if block.totalTx = 0 ∧ manager.earliestKeyTime + 2 * 60 * 60 < block.timestamp + WEEK ∨
        relay.filtered = false then some ⟨manager,none,0⟩
    else if manager.lastBlock ∉ manager.blocks then none
    else if ((block.timestamp + WEEK).toNat : Int) < relay.call.now then some ⟨manager,none,0⟩
    else
      some ⟨{ manager with orphans := insert byPrevBlock manager.orphans block },some block,0⟩
  | some prev =>
    let block := { block with height := prev.height + 1 }
    if block.totalTx = 0 ∧ manager.earliestKeyTime + 2 * 60 * 60 < block.timestamp + WEEK ∨
        relay.filtered = false then some ⟨manager,none,0⟩
    else
      let (verified,blocks) ← BRPeerManagerVerifyBlock manager block prev
      let manager := { manager with blocks }
      if verified then
        placeVerified address relay manager block txHashes
          (block.timestamp / 2 + prev.timestamp / 2)
      else some ⟨manager,none,0⟩

/-- Of the blocks from the last one down, as many are saved that they begin at a transition. -/
def savedCount (blocks : List BRMerkleBlock) : Nat :=
  let i := blocks.length
  let j := (blocks.getLast?.map fun b => (b.height % BLOCK_DIFFICULTY_INTERVAL).toNat).getD 0
  let missing := BLOCK_DIFFICULTY_INTERVAL.toNat - j
  if 0 < j then i - (if missing < i then missing else i) else i

/-- The manager, the orphan that comes next, and the blocks that are saved -/
structure Relayed where
  manager : BRPeerManager
  next : Option BRMerkleBlock
  saved : List BRMerkleBlock

/-- What follows when a block was put somewhere -/
def finish (placed : Placed) : Option Relayed :=
  let manager := placed.manager
  let block := placed.block.filter fun block => block.height ≠ BLOCK_UNKNOWN_HEIGHT
  let next := block.bind fun block => lookup byPrevBlock manager.orphans (orphanOf block.blockHash)
  let manager := match block with
    | none => manager
    | some block => { manager with
        estimatedHeight :=
          if manager.estimatedHeight < block.height then block.height else manager.estimatedHeight
        orphans := remove byPrevBlock manager.orphans (orphanOf block.blockHash) }
  let chain := lineage (previous manager.blocks) placed.saveCount placed.block
  let saved := chain.take (savedCount chain)
  if ∀ b ∈ saved.getLast?, b.height % BLOCK_DIFFICULTY_INTERVAL = 0 then
    some ⟨manager,next,saved⟩
  else none

/-- `_peerRelayedBlock`, as far as it holds the lock -/
def peerRelayedBlock (block : BRMerkleBlock) : Option Relayed := do
  let placed ← placeBlock address relay manager block
  finish placed

/-- `_peerRelayedBlock`, with the orphans that follow, where no other thread comes between -/
def relayFrom : Nat → BRPeerManager → BRMerkleBlock → Option BRPeerManager
  | 0, _, _ => none
  | fuel + 1, manager, block => do
    let relayed ← peerRelayedBlock address relay manager block
    match relayed.next with
    | none => some relayed.manager
    | some next => relayFrom fuel relayed.manager next

end Relaying

end BRPeerManagers
