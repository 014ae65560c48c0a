/-!
# Networks

The networks of the chain with the addresses of their services, and links into their explorers.
-/

namespace ArrowCircuit

/-- A network of the chain. -/
inductive Network where
  | devnet
  | testnet
  | mainnet
  | localnet
  deriving DecidableEq, Repr

namespace Network

/-- The name of a network. -/
def name : Network → String
  | .devnet => "devnet"
  | .testnet => "testnet"
  | .mainnet => "mainnet-beta"
  | .localnet => "localnet"

/-- All networks. -/
def all : List Network := [.devnet, .testnet, .mainnet, .localnet]

/-- The network of a name. -/
def ofName? (name : String) : Option Network := all.find? fun n => n.name = name

/-- What is said of a name that no network has; the name is given as it is shown. -/
def unknownMessage (shown : String) : String := shown ++ " is not a valid Network"

/-- The address of the network's interface. -/
def rpcUrl : Network → String
  | .devnet => "https://api.devnet.solana.com"
  | .testnet => "https://api.testnet.solana.com"
  | .mainnet => "https://api.mainnet-beta.solana.com"
  | .localnet => "http://localhost:8899"

/-- The address of the network's explorer. -/
def explorerUrl : Network → String
  | .localnet => "http://localhost:3000"
  | _ => "https://explorer.solana.com"

/-- The verifier program, the same on every network. -/
def programId : String := "EYhRED7EuMyyVjx57aDXUD9h6ArnEKng64qtz8999KrS"

/-- The link to an object of a kind; all networks but the main one are named in it. -/
def link (n : Network) (kind ident : String) : String :=
  let cluster := if n = .mainnet then "" else "?cluster=" ++ n.name
  n.explorerUrl ++ "/" ++ kind ++ "/" ++ ident ++ cluster

/-- The link to a transaction. -/
def transactionUrl (n : Network) (signature : String) : String := n.link "tx" signature

/-- The link to an account. -/
def accountUrl (n : Network) (address : String) : String := n.link "address" address

end Network

end ArrowCircuit
