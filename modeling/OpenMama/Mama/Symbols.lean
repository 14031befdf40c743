import Mathlib.Data.List.DropRight

/-!
# The symbol and the participant of a message

The MAMDA listeners find out which instrument and which participant a message is about from four of its
fields. A message of a participant need not say so in the part id field: the symbol may end in a dot and
the participant.
-/

namespace OpenMama

/-- The fields a message names its instrument by; `none` is a field that is not in the message. -/
structure Symbols where
  issueSymbol : Option String := none
  indexSymbol : Option String := none
  symbol : Option String := none
  partId : Option String := none
deriving DecidableEq

namespace Symbols

def name (m : Symbols) : Option String := m.issueSymbol <|> m.indexSymbol <|> m.symbol

/-- `strrchr (symbol, '.') + 1`, if there is a dot with text after it. -/
def afterLastDot (symbol : String) : Option String :=
  if '.' ∈ symbol.toList then
    match symbol.toList.rtakeWhile (· ≠ '.') with
    | [] => none
    | text => some (String.ofList text)
  else none

def getSymbolAndPartId (m : Symbols) : Option String × Option String :=
  match m.partId with
  | some partId => (m.name, some partId)
  | none => (m.name, m.name.bind afterLastDot)

end Symbols

end OpenMama
