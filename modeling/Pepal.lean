import Pepal.Lib.PrimeGroup
import Pepal.Lib.Numeral
import Pepal.Lib.CounterMode
import Pepal.Lib.ObliviousTransfer
import Pepal.Lib.Promise
import Pepal.Lib.Fallible
import Pepal.Lib.Tiling
import Pepal.Lib.Loop
import Pepal.Lib.Occupancy
import Pepal.Lib.Segments
import Pepal.Images.Crypto
import Pepal.Images.Parties
import Pepal.Images.Transfer
import Pepal.Images.CipherKey
import Pepal.Images.KeyCheck
import Pepal.Images.Pattern
import Pepal.Images.Keystream
import Pepal.Images.NDA
import Pepal.Images.PartLengths
import Pepal.Images.Detection
import Pepal.Images.BitCalculations
import Pepal.Lib.Decimal
import Pepal.Lib.JsonText
import Pepal.Lib.Json
import Pepal.Lib.Latin1
import Pepal.Lib.Utf8
import Pepal.Software.SofTran
import Pepal.Software.Steps
import Pepal.Software.Delivery
import Pepal.Software.Privacy
import Pepal.Chain.Golang
import Pepal.Chain.Time
import Pepal.Chain.Contract
import Pepal.Chain.ECDSASig
import Pepal.Chain.Signing
import Pepal.Lib.Runs
import Pepal.Chain.Shim
import Pepal.Chain.Apdlcc
import Pepal.Chain.Multiapdlcc
import Pepal.Chain.Transactions
import Pepal.Chain.Signatures
import Pepal.Chain.Creation
import Pepal.Chain.ContractKeys
import Pepal.Chain.Contracts
import Pepal.Chain.Balances
import Pepal.Chain.Evidence
import Pepal.Chain.RequestBytes
import Pepal.Chain.Requested
import Pepal.Chain.Settlement
import Pepal.Chain.Exactness
import Pepal.Chain.Failures
import Pepal.Chain.Violations
import Pepal.Chain.Endorsement
import Pepal.Chain.Frame
import Pepal.ReceiverPrivacy
import Pepal.KeyBits
import Pepal.Rest.InvokeTransaction
import Pepal.Software.SenderService
import Pepal.Software.Penalize
import Pepal.Software.ContractText
import Pepal.Pgm.Header
import Pepal.Pgm.HeaderBounds
import Pepal.Pgm.Indices
import Pepal.Pgm.WellFormed
import Pepal.Pgm.Split
import Pepal.Pgm.Join
import Pepal.Pgm.Refusal
import Pepal.Pgm.Coverage
import Pepal.Lib.Turns
import Pepal.Rest.Identity
import Pepal.Chain.Account
import Pepal.Chain.Order
import Pepal.Images.Memstream
import Pepal.Images.Picture
import Pepal.Images.Sessions
import Pepal.Rest.InstantiateChaincode
import Pepal.Rest.JoinChannel
import Pepal.Rest.UndisturbedJoin
import Pepal.Software.Traces
import Pepal.Web.Blocks
import Pepal.Software.Downloads
import Pepal.Software.Accountability
