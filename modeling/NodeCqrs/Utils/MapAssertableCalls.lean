import NodeCqrs.Lib.History
import NodeCqrs.Lib.Machine
import NodeCqrs.Utils.MapAssertable

/-!
# Calls of a `MapAssertable`

Factories are numbered as the calls pass them, and a value has its factory's number, so that the
history tells whose it is.
-/

namespace NodeCqrs.MapAssertableCalls

inductive Entry (K V F : Type)
  | assert (key : K)
  /-- A factory has been passed to `setLazy`, or to `assert` of a key that is not there. -/
  | installed (key : K) (number : ℕ) (factory : F)
  | invoked (number : ℕ) (value : V)
  /-- By `get` or `assert`. -/
  | returned (key : K) (value : Option (ℕ × V))
  | release (key : K)

structure Sys (K V F S : Type) where
  map : MapAssertable K (ℕ × V) (ℕ × F) := {}
  surroundings : S
  next : ℕ := 0
  history : List (Entry K V F) := []

inductive Action (K F : Type)
  | assert (key : K) (factory : F)
  | setLazy (key : K) (factory : F)
  | get (key : K)
  | has (key : K)
  | release (key : K)

variable {K V F S : Type}

/-- A numbered factory is called. -/
def invoke (call : F → S → S × V) (factory : ℕ × F) (s : S × List (Entry K V F)) :
    (S × List (Entry K V F)) × (ℕ × V) :=
  let (surroundings, value) := call factory.2 s.1
  ((surroundings, s.2 ++ [.invoked factory.1 value]), (factory.1, value))

variable [DecidableEq K]

def asserts (key : K) (history : List (Entry K V F)) : ℕ :=
  history.countP fun
    | .assert key' => key' = key
    | _ => false

def releases (key : K) (history : List (Entry K V F)) : ℕ :=
  history.countP fun
    | .release key' => key' = key
    | _ => false

/-- A call; it is always enabled. -/
def step (call : F → S → S × V) (s : Sys K V F S) : Action K F → Option (Sys K V F S)
  | .assert key factory =>
    let history := s.history ++ [.assert key]
    let history := if s.map.has key then history else history ++ [.installed key s.next factory]
    let (map, (surroundings, history), value) :=
      s.map.assert (invoke call) key (s.next, factory) (s.surroundings, history)
    some { map, surroundings, next := s.next + 1, history := history ++ [.returned key value] }
  | .setLazy key factory =>
    some { s with
      map := s.map.setLazy key (s.next, factory)
      next := s.next + 1
      history := s.history ++ [.installed key s.next factory] }
  | .get key =>
    let (map, (surroundings, history), value) :=
      s.map.get (invoke call) key (s.surroundings, s.history)
    some { s with map, surroundings, history := history ++ [.returned key value] }
  | .has _ => some s
  | .release key =>
    some { s with map := s.map.release key, history := s.history ++ [.release key] }

def machine (call : F → S → S × V) : Machine (Sys K V F S) (Action K F) where
  Init s := ∃ surroundings, s = { surroundings }
  step := step call

/-- No more releases than asserts, and `setLazy` only while the key is in use. -/
def Disciplined (s : Sys K V F S) : Action K F → Prop
  | .setLazy key _ | .release key => releases key s.history < asserts key s.history
  | .assert _ _ | .get _ | .has _ => True

instance (s : Sys K V F S) : ∀ a : Action K F, Decidable (Disciplined s a)
  | .setLazy _ _ | .release _ => inferInstanceAs (Decidable (_ < _))
  | .assert _ _ | .get _ | .has _ => inferInstanceAs (Decidable True)

end NodeCqrs.MapAssertableCalls
