import Sysprog.Userfs.CallEffects
import Mathlib.Data.Finset.Card
import Mathlib.Logic.Function.Basic

/-!
# What a client knows

The ledger is computed from the calls and their results alone: which
descriptors are open and for which file, which names stand for which file and
what the last write on each file stored. Files are counted in the order of
their creation.
-/

namespace Sysprog.Userfs.ClientLedger

open CheckedRuns Memory Blocks Calls

set_option autoImplicit false

abbrev History := List (Event Call Reply)

structure Ledger where
  descriptors : Finset Int
  target : Int → Nat
  created : Nat
  named : String → Option Nat
  content : Nat → Option (List Byte)

def emptyLedger : Ledger where
  descriptors := ∅
  target := fun _ => 0
  created := 0
  named := fun _ => none
  content := fun _ => none

def recordOpen (ledger : Ledger) (filename : String) (flags : BitVec 32) (fdno : Int) : Ledger :=
  if fdno = -1 then ledger
  else if flags &&& ufsCreate ≠ 0 then { ledger with
    descriptors := insert fdno ledger.descriptors
    target := Function.update ledger.target fdno ledger.created
    created := ledger.created + 1
    named := Function.update ledger.named filename (some ledger.created) }
  else { ledger with
    descriptors := insert fdno ledger.descriptors
    target := Function.update ledger.target fdno ((ledger.named filename).getD 0) }

/-- A write that returns `n` replaced the content by the first `n` bytes of
its buffer. -/
def recordWrite (ledger : Ledger) (fdno : Int) (buf : List Byte) (value : Int) : Ledger :=
  if value = -1 then ledger
  else { ledger with
    content := Function.update ledger.content (ledger.target fdno) (some (buf.take value.toNat)) }

def recordClose (ledger : Ledger) (fdno value : Int) : Ledger :=
  if value = 0 then { ledger with descriptors := ledger.descriptors.erase fdno } else ledger

def recordDelete (ledger : Ledger) (filename : String) (value : Int) : Ledger :=
  if value = 0 then { ledger with named := Function.update ledger.named filename none }
  else ledger

def record (ledger : Ledger) (event : Event Call Reply) : Ledger :=
  match event.call with
  | .open filename flags => recordOpen ledger filename flags event.result.value
  | .write fd buf _ => recordWrite ledger fd buf event.result.value
  | .close fd => recordClose ledger fd event.result.value
  | .delete filename => recordDelete ledger filename event.result.value
  | .read _ _ _ => ledger
  | .size _ => ledger

def ledgerOf (history : History) : Ledger := history.foldl record emptyLedger

@[simp] theorem ledger_of_snoc (history : History) (event : Event Call Reply) :
    ledgerOf (history ++ [event]) = record (ledgerOf history) event := by
  simp [ledgerOf]

/-- The descriptor a call passes, if it passes one, is open at that moment. -/
def PassesOpen (history : History) : Call → Prop
  | .open _ _ => True
  | .write fd _ _ => fd ∈ (ledgerOf history).descriptors
  | .read fd _ _ => fd ∈ (ledgerOf history).descriptors
  | .close fd => fd ∈ (ledgerOf history).descriptors
  | .delete _ => True
  | .size fd => fd ∈ (ledgerOf history).descriptors

instance (history : History) : (call : Call) → Decidable (PassesOpen history call)
  | .open _ _ => .isTrue trivial
  | .write fd _ _ => inferInstanceAs (Decidable (fd ∈ (ledgerOf history).descriptors))
  | .read fd _ _ => inferInstanceAs (Decidable (fd ∈ (ledgerOf history).descriptors))
  | .close fd => inferInstanceAs (Decidable (fd ∈ (ledgerOf history).descriptors))
  | .delete _ => .isTrue trivial
  | .size fd => inferInstanceAs (Decidable (fd ∈ (ledgerOf history).descriptors))

end Sysprog.Userfs.ClientLedger
