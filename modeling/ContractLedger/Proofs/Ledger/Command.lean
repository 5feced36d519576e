import ContractLedger.Proofs.Ledger.Batch
import ContractLedger.Proofs.Ledger.Opening

/-!
What is asked of a ledger within a batch, and what a book makes of it. On a sound ledger every
command succeeds, gives the reply that the book gives, and leaves the book as the command changes
it.
-/

namespace ContractLedger

/-- A write or a read of a batch. -/
inductive Command where
  | createAccount (address : Address)
  | setCode (address : Address) (code : Bytes)
  | setObject (address : Address) (key value : Bytes)
  | setBalance (address : Address) (balance : Amount)
  | account (address : Address)
  | getCode (address : Address)
  | getObject (address : Address) (key : Bytes)
  | getBalance (address : Address)
deriving DecidableEq

inductive Reply where
  | done
  | hash (hash : Hash)
  | account (account : Option Account)
  | bytes (bytes : Option Bytes)
  | balance (balance : Amount)
deriving DecidableEq

namespace Command

/-- The step of the ledger that carries a command out. -/
def run {σ : Type} [ByteStore σ] : Command → LedgerM σ Reply
  | createAccount address => (fun account => .account (some account)) <$> Ledger.createAccount address
  | setCode address code => .hash <$> Ledger.setCode address code
  | setObject address key value => (fun _ => .done) <$> Ledger.setObject address key value
  | setBalance address balance => (fun _ => .done) <$> Ledger.setBalance address balance
  | account address => .account <$> Ledger.account address
  | getCode address => .bytes <$> Ledger.getCode address
  | getObject address key => .bytes <$> Ledger.getObject address key
  | getBalance address => .balance <$> Ledger.getBalance address

def effect : Command → Book → Book
  | createAccount address, book => book.set address .fresh
  | setCode address code, book =>
    book.set address { book.holding address with code := some code }
  | setObject address key value, book =>
    book.set address { book.holding address with
      storage := Tree.written (book.holding address).storage key value }
  | setBalance address balance, book =>
    book.set address { book.holding address with balance }
  | account _, book | getCode _, book | getObject _ _, book | getBalance _, book => book

noncomputable def reply : Command → Book → Reply
  | createAccount _, _ => .account (some .fresh)
  | setCode _ code, _ => .hash (Keccak.digest code)
  | setObject _ _ _, _ => .done
  | setBalance _ _, _ => .done
  | account address, book =>
    .account ((book address).map fun holding => holding.account holding.storageRoot)
  | getCode address, book => .bytes (book.holding address).code
  | getObject address key, book => .bytes ((book.holding address).storage key)
  | getBalance address, book => .balance (book.holding address).balance

def code : Command → List Bytes
  | setCode _ code => [code]
  | _ => []

variable {σ : Type} [ByteStore σ] [ReliableStore σ]

theorem agree_run (command : Command) :
    Agree Ledger.Mounted.view Ledger.Mounted.pending (command.run : LedgerM σ _) command.run := by
  cases command with
  | createAccount address => exact .map _ (Ledger.agree_createAccount address)
  | setCode address code => exact .map _ (Ledger.agree_setCode address code)
  | setObject address key value => exact .map _ (Ledger.agree_setObject address key value)
  | setBalance address balance => exact .map _ (Ledger.agree_setBalance address balance)
  | account address => exact .map _ (Ledger.agree_account address)
  | getCode address => exact .map _ (Ledger.agree_getCode address)
  | getObject address key => exact .map _ (Ledger.agree_getObject address key)
  | getBalance address => exact .map _ (Ledger.agree_getBalance address)

open Ledger in
/-- On a sound ledger a command does what it does to the book. -/
theorem succeeds {data : Set Bytes} {mounted : Ledger.Mounted Content} {book : Book}
    {roots : Address → Hash} (faithful : Faithful data) (sound : Sound data mounted book roots)
    {command : Command} (within : ∀ code ∈ command.code, code ∈ data) :
    Succeeds data mounted command.run (command.reply book) (command.effect book) := by
  have orderly := sound.orderly
  have lists := sound.lists
  cases command with
  | createAccount address =>
    have created := createAccount_sound faithful sound address
    rw [run, reply, effect]
    exact created.map _
  | setCode address code =>
    have wrote := setCode_sound faithful sound address (within code List.mem_cons_self)
    rw [run, reply, effect]
    exact wrote.map _
  | setObject address key value =>
    have wrote := setObject_sound faithful sound address key value
    rw [run, reply, effect]
    exact wrote.map _
  | setBalance address balance =>
    have wrote := setBalance_sound faithful sound address balance
    rw [run, reply, effect]
    exact wrote.map _
  | account address =>
    have read := Succeeds.of_read sound (account_apply faithful orderly lists address)
    rw [run, reply, effect, ← lists.map_account address]
    exact read.map _
  | getCode address =>
    have read := getCode_succeeds faithful sound address
    rw [run, reply, effect]
    exact read.map _
  | getObject address key =>
    have read := getObject_succeeds faithful sound address key
    rw [run, reply, effect]
    exact read.map _
  | getBalance address =>
    have read := getBalance_succeeds faithful sound address
    rw [run, reply, effect]
    exact read.map _

end Command

end ContractLedger
