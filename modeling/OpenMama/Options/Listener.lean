import OpenMama.Options.Chain

/-!
# The listener of an option chain

`MamdaOptionChainListener.cpp`, as far as it fills the chain. The first message of a symbol creates its contract.
While mandatory fields are missing, later messages are looked through for them; then the contract is given to the
chain and its fields are not read any more. The contract of a symbol is the closure of that item of the subscription.
-/

namespace OpenMama.Options

inductive PutCallField where
  | number (value : Int)
  | text (value : String)
  | other
deriving DecidableEq

def PutCallField.putCall : PutCallField → PutCall
  | .number value =>
    match value with
    | 1 => .put
    | 2 => .call
    | _ => .unknown
  | .text value =>
    match value.toList.head? with
    | some '1' | some 'P' => .put
    | some '2' | some 'C' => .call
    | _ => .unknown
  | .other => .unknown

structure OptionMsg where
  contractSymbol : Option String
  expireDate : Option ExpireDate := none
  strikePrice : Option Rat := none
  putCall : Option PutCallField := none
deriving DecidableEq

structure Settings where
  expireDateManditory : Bool := true
  strikePriceManditory : Bool := true
  putCallManditory : Bool := true
deriving DecidableEq

def Settings.gotAllMandFields (cfg : Settings) (gotExpireDate gotStrikePrice gotPutCall : Bool) : Bool :=
  (gotExpireDate && gotStrikePrice && gotPutCall) ||
    ((!cfg.expireDateManditory || (cfg.expireDateManditory && gotExpireDate)) &&
      (!cfg.strikePriceManditory || (cfg.strikePriceManditory && gotStrikePrice)) &&
      (!cfg.putCallManditory || (cfg.putCallManditory && gotPutCall)))

/-- `getSymbolAndExchange`: the exchange is what follows the first dot. -/
def getSymbolAndExchange (fullSymbol : String) : String × String :=
  let (symbol, rest) := fullSymbol.toList.span (· ≠ '.')
  (String.ofList symbol, String.ofList (rest.drop 1))

def Contract.fill (msg : OptionMsg) (c : Contract) : Contract :=
  { c with
    expireDate := c.expireDate <|> msg.expireDate
    strikePrice := c.strikePrice <|> msg.strikePrice
    putCall := c.putCall <|> msg.putCall.map PutCallField.putCall }

def Contract.isComplete (cfg : Settings) (c : Contract) : Bool :=
  cfg.gotAllMandFields c.expireDate.isSome c.strikePrice.isSome c.putCall.isSome

structure Listener where
  contracts : List String := []
  chain : Chain String

namespace Listener

def setContract (fullSymbol : String) (c : Contract) (s : Listener) : Listener :=
  { s with chain := { s.chain with contract := Function.update s.chain.contract fullSymbol c } }

def withChain (s : Listener) (chain : Chain String) : Listener := { s with chain := chain }

def createContract (cfg : Settings) (fullSymbol : String) (msg : OptionMsg) (s : Listener) : Option Listener :=
  let (symbol, exchange) := getSymbolAndExchange fullSymbol
  let c := (Contract.new symbol exchange).fill msg
  let created := s.setContract fullSymbol { c with recapRequired := !c.isComplete cfg }
  (created.chain.processNewContractDetails fullSymbol).map fun chain =>
    { created with contracts := s.contracts ++ [fullSymbol], chain := chain }

def completeContract (cfg : Settings) (fullSymbol : String) (msg : OptionMsg) (s : Listener) : Option Listener :=
  if (s.chain.contract fullSymbol).recapRequired then
    let c := (s.chain.contract fullSymbol).fill msg
    if c.isComplete cfg then
      let completed := s.setContract fullSymbol { c with recapRequired := false }
      (completed.chain.processNewContractDetails fullSymbol).map completed.withChain
    else some (s.setContract fullSymbol c)
  else some s

/-- `onMsg`. Without a contract symbol `findContract` throws, and the exception is caught. -/
def onMsg (cfg : Settings) (s : Listener) (msg : OptionMsg) : Option Listener :=
  match msg.contractSymbol with
  | none => some s
  | some fullSymbol =>
    if fullSymbol ∈ s.contracts then s.completeContract cfg fullSymbol msg
    else s.createContract cfg fullSymbol msg

def init : Listener where
  chain := { contract := fun _ => Contract.new "" "" }

def run (cfg : Settings) (msgs : List OptionMsg) : Option Listener := msgs.foldlM (onMsg cfg) init

end Listener

end OpenMama.Options
