import AltMessenger.LittleEndian
import AltMessenger.MachineWords
import AltMessenger.ByteReader
import AltMessenger.ReaderFaults
import AltMessenger.BitFields
import AltMessenger.TransitionRuns
import AltMessenger.MerkleTree
import AltMessenger.Bip37
import AltMessenger.StreamDrain
import AltMessenger.SwiftRuntime
import AltMessenger.BitcoinStream
import AltMessenger.BitcoinHash
import AltMessenger.MerkleProof
import AltMessenger.BitcoinMessage
import AltMessenger.PeerStream
import AltMessenger.PeerMessages
import AltMessenger.PeerCodec
import AltMessenger.PayloadSafety
import AltMessenger.BitcoinKeys
import AltMessenger.BitcoinTransaction
import AltMessenger.TransactionCodec
import AltMessenger.TransactionBuilder
import AltMessenger.BitcoinScript
import AltMessenger.WalletStore
import AltMessenger.StoredKeys
import AltMessenger.SpendOrder
import AltMessenger.WalletOrder
import AltMessenger.OrderIndependence
import AltMessenger.TransactionDBConstructor
import AltMessenger.SendViewController
import AltMessenger.Sender
import AltMessenger.TouchIdLimit
import AltMessenger.MessageModel
import AltMessenger.Conversations
import AltMessenger.Numerals
import AltMessenger.PublicAddress
import AltMessenger.WalletImport
import AltMessenger.ReplicatedStore
import AltMessenger.FaultyState
import AltMessenger.StoreFaults
import AltMessenger.AllKeysSync
import AltMessenger.NewerRemote
import AltMessenger.SyncConverges
import AltMessenger.AsyncResponse
import AltMessenger.BasePointDoublings
import AltMessenger.BasePointOrder
import AltMessenger.ECKeySignature
import AltMessenger.ScalarMultiples
import AltMessenger.SignatureCheck
import AltMessenger.WebSocket
import AltMessenger.WebSocketFrames
import AltMessenger.SentFrames
import AltMessenger.WebSocketMessages
import AltMessenger.WireOrder
import AltMessenger.WebSocketServer
import AltMessenger.PeerSender
import AltMessenger.PinLockout
import AltMessenger.BlockStore
import AltMessenger.OrderedArrival
import AltMessenger.BlockHeights
import AltMessenger.CFController
import AltMessenger.BlockSync
import AltMessenger.SyncCompletion
import AltMessenger.PathWalk
import AltMessenger.TarExtraction
import AltMessenger.AssetArchive
import AltMessenger.SimpleRedux
import AltMessenger.APIRequests
import AltMessenger.EventManager
import AltMessenger.SwiftText
import AltMessenger.BinaryRounding
import AltMessenger.SwiftFloat
import AltMessenger.HTTPRequest
import AltMessenger.FileMiddleware
import AltMessenger.SwiftURL
import AltMessenger.APIProxy
import AltMessenger.HTTPResponse
import AltMessenger.KVStorePlugin
import AltMessenger.KVStoreContract
import AltMessenger.SignBitID
import AltMessenger.WalletPlugin
import AltMessenger.HTTPServer
import AltMessenger.RipemdDefinition
import AltMessenger.RIPEMD
import AltMessenger.MurmurDefinition
import AltMessenger.BloomFilter
import AltMessenger.BloomMembership
import AltMessenger.VarIntForms
import AltMessenger.HexDecoders
import AltMessenger.Base58Numbers
import AltMessenger.AddressValidation
import AltMessenger.DerSignatures
import AltMessenger.PointBytes
import AltMessenger.SigningLoop
import AltMessenger.MultiplicationPaths
import AltMessenger.JacobianFormulas
import AltMessenger.JudgedLedger
import AltMessenger.FieldOperations
import AltMessenger.DataReads
import AltMessenger.MessageVarInt
import AltMessenger.OutputScripts
import AltMessenger.InputScripts
import AltMessenger.MultisigScripts
import AltMessenger.ProofPadding
import AltMessenger.MessageStreams
import AltMessenger.VerificationPaths
import AltMessenger.VarStrings
import AltMessenger.PendingTransactions
import AltMessenger.BSPatch
import AltMessenger.BSPatchFaults
import AltMessenger.TarArchives
import AltMessenger.WalletHistory
import AltMessenger.SpendableOutputs
import AltMessenger.TransactionFee
import AltMessenger.WalletFaults
import AltMessenger.TransactionDetails
import AltMessenger.EventSync
import AltMessenger.SealedData
import AltMessenger.SealedValues
import AltMessenger.ByteRanges
import AltMessenger.UTF8Text
import AltMessenger.RemoteKeys
import AltMessenger.RequestBodies
import AltMessenger.PercentEscapes
import AltMessenger.QueryStrings
import AltMessenger.PaymentRequests
import AltMessenger.URLHandling
import AltMessenger.LineExpressions
import AltMessenger.RouteMatching
import AltMessenger.BRTransactions
import AltMessenger.BRWallets
import AltMessenger.BRWalletOperations
import AltMessenger.BRWalletAddresses
import AltMessenger.BRWalletRuns
import AltMessenger.BRWalletSpending
import AltMessenger.BRWalletTooLarge
import AltMessenger.KeyedTables
import AltMessenger.WalletDatabase
import AltMessenger.GuardedReader
import AltMessenger.BRMerkleBlocks
import AltMessenger.CompactTargets
import AltMessenger.KeptForests
import AltMessenger.BRPeerManagers
import AltMessenger.BRPeerManagerChains
import AltMessenger.BRPeerManagerSteps
import AltMessenger.BRPeerManagerRuns
import AltMessenger.BRPeerManagerConfirmations
import AltMessenger.BRBlockDifficulty
import AltMessenger.BRMerkleProofs
import AltMessenger.BRMerkleMessages
import AltMessenger.StoredWallet
import AltMessenger.TransactionHistory
import AltMessenger.PinPad
import AltMessenger.Decompression
import AltMessenger.RemoteRequests
import AltMessenger.ProtocolRequests
import AltMessenger.QRCodes
import AltMessenger.SwiftDecimal
import AltMessenger.PaymentURIs
import AltMessenger.LinearProbing
import AltMessenger.BRSets
