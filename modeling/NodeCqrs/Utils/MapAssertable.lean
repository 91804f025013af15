import Mathlib.Data.Nat.Notation
import Mathlib.Logic.Function.Basic

/-!
# `MapAssertable`

Values with a usage count by key, or in a value's place a factory not yet called. Calling a factory
may change its surroundings, so an operation that may call one passes them on.
-/

namespace NodeCqrs

/-- A key's usage count is 0 where the source keeps none. -/
structure MapAssertable (K V F : Type) where
  entries : K → Option V := fun _ => none
  usageCounter : K → ℕ := fun _ => 0
  factories : K → Option F := fun _ => none

namespace MapAssertable

variable {K V F S : Type} [DecidableEq K]

omit [DecidableEq K] in
def has (m : MapAssertable K V F) (key : K) : Bool :=
  (m.entries key).isSome || (m.factories key).isSome

def set (m : MapAssertable K V F) (key : K) (value : V) : MapAssertable K V F :=
  { m with entries := Function.update m.entries key (some value) }

def delete (m : MapAssertable K V F) (key : K) : MapAssertable K V F :=
  { m with
    entries := Function.update m.entries key none
    factories := Function.update m.factories key none }

def setLazy (m : MapAssertable K V F) (key : K) (factory : F) : MapAssertable K V F :=
  { m.delete key with factories := Function.update m.factories key (some factory) }

/-- `get`, where `call` is what calling a factory does. -/
def get (call : F → S → S × V) (m : MapAssertable K V F) (key : K) (s : S) :
    MapAssertable K V F × S × Option V :=
  match m.factories key with
  | some factory =>
    let (s', value) := call factory s
    ({ m with factories := Function.update m.factories key none }.set key value, s', some value)
  | none => (m, s, m.entries key)

def assert (call : F → S → S × V) (m : MapAssertable K V F) (key : K) (factory : F) (s : S) :
    MapAssertable K V F × S × Option V :=
  let (m', s') :=
    if m.has key then (m, s)
    else
      let (s', value) := call factory s
      (m.set key value, s')
  get call { m' with usageCounter := Function.update m'.usageCounter key (m'.usageCounter key + 1) }
    key s'

def release (m : MapAssertable K V F) (key : K) : MapAssertable K V F :=
  let count := m.usageCounter key - 1
  if 0 < count then { m with usageCounter := Function.update m.usageCounter key count }
  else { m with usageCounter := Function.update m.usageCounter key 0 }.delete key

end MapAssertable

end NodeCqrs
