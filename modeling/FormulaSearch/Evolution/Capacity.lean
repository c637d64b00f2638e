import FormulaSearch.Evolution.Population
import FormulaSearch.Trial

/-!
# Capacity

A list whose length is known beforehand has its room set aside before anything is put into it. The
room is limited by the addresses that there are, so a search that asks for too much of it fails at
once.
-/

namespace FormulaSearch

/-- The most bytes that one list can take. -/
def addressLimit : Nat := 0x7FFFFFFFFFFFFFFF

/-- The bytes of an individual, and of the record of a generation. -/
def recordWidth : Nat := 32

def indexWidth : Nat := 8

def HasRoom (width count : Nat) : Prop := width * count ≤ addressLimit

instance (width count : Nat) : Decidable (HasRoom width count) := Nat.decLe _ _

def reserve {σ : Type} (width count : Nat) : Trial SearchFault σ Unit :=
  if HasRoom width count then pure () else Trial.fail .outOfMemory

theorem reserve_of_hasRoom {σ : Type} {width count : Nat} (h : HasRoom width count) :
    (reserve width count : Trial SearchFault σ Unit) = pure () := if_pos h

theorem reserve_of_not_hasRoom {σ : Type} {width count : Nat} (h : ¬ HasRoom width count) :
    (reserve width count : Trial SearchFault σ Unit) = Trial.fail .outOfMemory := if_neg h

end FormulaSearch
