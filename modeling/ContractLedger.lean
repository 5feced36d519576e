import ContractLedger.Bytes
import ContractLedger.Identifier
import ContractLedger.Keccak
import ContractLedger.OrderedMap
import ContractLedger.Amount
import ContractLedger.Path
import ContractLedger.Text.Unprintable
import ContractLedger.Text.Quoted
import ContractLedger.Rlp.Encoding
import ContractLedger.Rlp.Decoding
import ContractLedger.Store.Basic
import ContractLedger.Store.Memory
import ContractLedger.Trie.Node
import ContractLedger.Trie.Basic
import ContractLedger.Journal
import ContractLedger.Ledger.Account
import ContractLedger.Ledger.Basic
import ContractLedger.Engine.Gas
import ContractLedger.Engine.Transfer
import ContractLedger.Contract.Value
import ContractLedger.Contract.Failure
import ContractLedger.Contract.Program
import ContractLedger.Contract.Definition
import ContractLedger.Contract.Description
import ContractLedger.Contract.Samples
import ContractLedger.Engine.World
import ContractLedger.Engine.Services
import ContractLedger.Engine.Invocation
import ContractLedger.Script.Basic
import ContractLedger.Admission.Instruction
import ContractLedger.Admission.Denylist
import ContractLedger.Admission.Inspection
import ContractLedger.Settlement
import ContractLedger.Settings.Token
import ContractLedger.Settings.Number
import ContractLedger.Settings.Item
import ContractLedger.Settings.Basic
import ContractLedger.Proofs.Step
import ContractLedger.Proofs.View
import ContractLedger.Proofs.Along
import ContractLedger.Proofs.OrderedMap
import ContractLedger.Proofs.Path
import ContractLedger.Proofs.Path.Packed
import ContractLedger.Proofs.Store.Content
import ContractLedger.Proofs.Rlp.Written
import ContractLedger.Proofs.Rlp.Walk
import ContractLedger.Proofs.Rlp.Accepted
import ContractLedger.Proofs.Trie.Record
import ContractLedger.Proofs.Trie.Accepted
import ContractLedger.Proofs.Trie.Tree
import ContractLedger.Proofs.Trie.Update
import ContractLedger.Proofs.Trie.Nodewise
import ContractLedger.Proofs.Trie.View
import ContractLedger.Proofs.Trie.Stored
import ContractLedger.Proofs.Trie.Orderly
import ContractLedger.Proofs.Trie.Map
import ContractLedger.Proofs.Trie.Changes
import ContractLedger.Proofs.Trie.Listing
import ContractLedger.Proofs.Trie.Alone
import ContractLedger.Proofs.Trie.History
import ContractLedger.Proofs.Trie.Fresh
import ContractLedger.Proofs.Trie.Pending
import ContractLedger.Proofs.Trie.Written
import ContractLedger.Proofs.Trie.Backing
import ContractLedger.Proofs.Ledger.Record
import ContractLedger.Proofs.Ledger.Formats
import ContractLedger.Proofs.Ledger.View
import ContractLedger.Proofs.Ledger.Book
import ContractLedger.Proofs.Ledger.Sound
import ContractLedger.Proofs.Ledger.Batch
import ContractLedger.Proofs.Ledger.Commit
import ContractLedger.Proofs.Ledger.Opening
import ContractLedger.Proofs.Ledger.Command
import ContractLedger.Proofs.Ledger.Site
import ContractLedger.Proofs.Ledger.Growth
import ContractLedger.Proofs.Ledger.Sight
import ContractLedger.Proofs.Ledger.Checkpoint
import ContractLedger.Proofs.Ledger.Permanence
import ContractLedger.Proofs.Ledger.Summary
import ContractLedger.Proofs.Ledger.Register
import ContractLedger.Proofs.Ledger.StorageRoot
import ContractLedger.Proofs.Ledger.Draft
import ContractLedger.Proofs.Ledger.Twins
import ContractLedger.Proofs.Trie.Descent
import ContractLedger.Proofs.Trie.Lookup
import ContractLedger.Proofs.Trie.Shape
import ContractLedger.Proofs.Trie.Course
import ContractLedger.Proofs.Trie.Failing
import ContractLedger.Proofs.Engine.View
import ContractLedger.Proofs.Engine.Entry
import ContractLedger.Proofs.Engine.Along
import ContractLedger.Proofs.Engine.Occurrence
import ContractLedger.Proofs.Engine.Fails
import ContractLedger.Proofs.Engine.Shortfall
import ContractLedger.Proofs.Engine.Relay
import ContractLedger.Proofs.Engine.Exhaustion
import ContractLedger.Proofs.Engine.Balances
import ContractLedger.Proofs.Engine.Sound
import ContractLedger.Proofs.Engine.Undone
import ContractLedger.Proofs.Engine.Settled
import ContractLedger.Proofs.Engine.Steady
import ContractLedger.Proofs.Engine.Solvent
import ContractLedger.Proofs.Settlement.Exits
import ContractLedger.Proofs.Settlement.Execution
import ContractLedger.Proofs.Settlement.Payment
import ContractLedger.Proofs.Settlement.Endowment
import ContractLedger.Proofs.Settlement.Conservation
import ContractLedger.Proofs.Settlement.Coverage
import ContractLedger.Proofs.Settlement.Exactness
import ContractLedger.Proofs.Settlement.Creation
import ContractLedger.Proofs.Settlement.Remnant
import ContractLedger.Proofs.Engine.Metering
import ContractLedger.Proofs.Engine.Charge
import ContractLedger.Proofs.Engine.Code
import ContractLedger.Proofs.Engine.Lockstep
import ContractLedger.Proofs.Engine.Handling
import ContractLedger.Proofs.Engine.Drafting
import ContractLedger.Proofs.Engine.Seen
import ContractLedger.Proofs.Engine.Footprint
import ContractLedger.Proofs.Engine.Machine
import ContractLedger.Proofs.Engine.Touched
import ContractLedger.Proofs.Engine.Twins
import ContractLedger.Proofs.Settlement.Twins
import ContractLedger.Proofs.Settlement.Independence
import ContractLedger.Proofs.Ledger.Reading
import ContractLedger.Proofs.Ledger.Failing
import ContractLedger.Proofs.Ledger.Resets
import ContractLedger.Proofs.Ledger.Tidy
import ContractLedger.Proofs.Ledger.Snapshots
import ContractLedger.Proofs.Contract.Chain
import ContractLedger.Proofs.Engine.Propagation
import ContractLedger.Proofs.Admission.Inspection
import ContractLedger.Proofs.Settlement.Deployment
