import LocaleBundle.Logged
import LocaleBundle.TextSet

/-!
# The key ledger

A build notes every key its sources refer to, and the keys that some locale
translates by a plural table. The ledger is open while sources are scanned;
closing it fixes both sets, and until it is reset no key can be added.
-/

namespace LocaleBundle

/-- The keys of one build. -/
structure KeyLedger where
  keys : List String := []
  pluralKeys : List String := []
  closed : Bool := false
  deriving DecidableEq

/-- The keys of a ledger at one time. -/
structure KeySets where
  keys : List String
  pluralKeys : List String
  deriving DecidableEq

namespace KeyLedger

/-- Notes keys that sources refer to. -/
def noteAll (ledger : KeyLedger) (keys : List String) : Except Error KeyLedger :=
  if ledger.closed then .error .ledgerClosed
  else .ok { ledger with keys := TextSet.adjoinAll ledger.keys keys }

/-- Notes a key that a source refers to. -/
def note (ledger : KeyLedger) (key : String) : Except Error KeyLedger := ledger.noteAll [key]

/-- Notes a key that some locale translates by a plural table. -/
def notePlural (ledger : KeyLedger) (key : String) : Except Error KeyLedger :=
  if ledger.closed then .error .ledgerClosed
  else .ok { ledger with pluralKeys := TextSet.adjoin ledger.pluralKeys key }

/-- Whether a key is noted as plural. -/
def isPlural (ledger : KeyLedger) (key : String) : Bool := ledger.pluralKeys.contains key

/-- Closes the ledger. -/
def close (ledger : KeyLedger) : KeyLedger := { ledger with closed := true }

/-- The keys noted so far. -/
def sets (ledger : KeyLedger) : KeySets := ⟨ledger.keys, ledger.pluralKeys⟩

/-- Forgets all keys and opens the ledger. -/
def reset (_ : KeyLedger) : KeyLedger := {}

/-- A change of the ledger as a job; a refused change leaves it as it is. -/
def update (change : KeyLedger → Except Error KeyLedger) : Job KeyLedger Unit := fun ledger =>
  match change ledger with
  | .error e => ⟨ledger, .error e, []⟩
  | .ok ledger => ⟨ledger, .ok (), []⟩

end KeyLedger

end LocaleBundle
