import Mathlib.Algebra.Ring.Nat
import Mathlib.Algebra.Ring.Int.Defs
import ServerTech.Foundation.Footprint

namespace ServerTech
namespace Brain

/-!
# Behaviour trees

A tree is ticked again and again.  The nodes keep what they remember between two
ticks in a `Context`, a map from nodes to numbers.  An entry is a cell of a
store, and it is an integer because `set` takes a signed index; everything else
that a leaf can see or change is outside the cells.

`update` of a node is a virtual call, so the `execute` of a composite is given
the `update` of each child as a program.  Leaves are written by the user of the
library: `Setting` has their `execute` and `reset`, which may do anything to the
context and to the environment and may never return.  A failed assertion does
not return either, and the two endless loops of the library stop after `fuel`
rounds without a result.

Every `update` also gives a log of the updates made below it, in order.
-/

inductive Status where
  | invalid
  | success
  | failure
  | running
  deriving DecidableEq, Repr

inductive FailurePolicy where
  | failedOnOne
  | failedOnAll
  deriving DecidableEq, Repr

inductive SuccessPolicy where
  | succeedOnOne
  | succeedOnAll
  deriving DecidableEq, Repr

/-- The entries of the context, and the environment of the leaves. -/
abbrev World (ι σ : Type) :=
  Store ι (Option Int) σ

abbrev Action (ι σ : Type) :=
  Program ι (Option Int) σ

/-- One update: a leaf that was executed, or a node with the entry it found and
the updates of its children. -/
inductive Log (ι : Type) where
  | leaf (node : ι) (status : Status)
  | inner (node : ι) (entry : Int) (status : Status) (calls : List (Log ι))
  deriving Repr

abbrev Tick (ι σ : Type) :=
  Action ι σ (Status × Log ι)

/-- What `execute` of an inner node gives: a status, and the updates it made. -/
abbrev Body (ι σ : Type) :=
  Action ι σ (Status × List (Log ι))

/-- The code of the leaves, and the clock that `utils::now` reads. -/
structure Setting (ι σ : Type) where
  execute : ι -> Action ι σ Status
  reset : ι -> Status -> Action ι σ Unit
  now : σ -> Int × σ

variable {ι σ : Type}

namespace Context

def get (node : ι) : Action ι σ Int := do
  let entry ← Program.read node
  return entry.getD 0

/-- The index -1 erases the entry. -/
def set [DecidableEq ι] (node : ι) (index : Int) : Action ι σ Unit :=
  Program.write node (if index = -1 then none else some index)

/-- The first index of a loop over `size` children.  A negative number is larger
than every size once it is a `size_t`. -/
def start (index : Int) (size : Nat) : Nat :=
  if index < 0 then size else index.toNat

end Context

/-! ## Composites -/

section Composites

variable [DecidableEq ι]

/-- The loop of `Selector` and `Sequence`: go on while the children return the
status `through`. -/
def inOrder (through : Status) (self : ι) :
    Nat -> List (Tick ι σ) -> Action ι σ (Status × List (Log ι))
  | _, [] => return (through, [])
  | i, child :: children => do
      let (s, log) ← child
      if s ≠ through then do
        Context.set self i
        return (s, [log])
      else do
        let (status, logs) ← inOrder through self (i + 1) children
        return (status, log :: logs)

def ordered (through : Status) (self : ι) (children : List (Tick ι σ)) :
    Action ι σ (Status × List (Log ι)) :=
  if children.isEmpty then failure
  else do
    let index ← Context.get self
    let i := Context.start index children.length
    inOrder through self i (children.drop i)

def selector (self : ι) (children : List (Tick ι σ)) : Action ι σ (Status × List (Log ι)) :=
  ordered .failure self children

def sequence (self : ι) (children : List (Tick ι σ)) : Action ι σ (Status × List (Log ι)) :=
  ordered .success self children

omit [DecidableEq ι] in
def ifElse (children : List (Tick ι σ)) : Action ι σ (Status × List (Log ι)) :=
  match children with
  | [condition, yes, no] => do
      let (s, log) ← condition
      if s = .success then do
        let (t, chosen) ← yes
        return (t, [log, chosen])
      else do
        let (t, chosen) ← no
        return (t, [log, chosen])
  | _ => failure

omit [DecidableEq ι] in
/-- Update all children, whatever they return. -/
def updateAll : List (Tick ι σ) -> Action ι σ (List (Status × Log ι))
  | [] => return []
  | child :: children => do
      let result ← child
      let results ← updateAll children
      return result :: results

omit [DecidableEq ι] in
def priority (children : List (Tick ι σ)) : Action ι σ (Status × List (Log ι)) :=
  match children with
  | [] => failure
  | first :: others => do
      let (rs, log) ← first
      if rs = .success then return (rs, [log])
      else do
        let results ← updateAll others
        return (rs, log :: results.map Prod.snd)

omit [DecidableEq ι] in
/-- `Parallel`, with the least number of failures and of successes it takes. -/
def parallel (failedMinCount succeedMinCount : Int) (children : List (Tick ι σ)) :
    Action ι σ (Status × List (Log ι)) :=
  if children.isEmpty then failure
  else do
    let results ← updateAll children
    let failedTotalCount := results.countP fun result => result.1 = .failure
    let succeedTotalCount := results.countP fun result => result.1 = .success
    let status :=
      if failedMinCount ≤ failedTotalCount then .failure
      else if succeedMinCount ≤ succeedTotalCount then .success
      else .running
    return (status, results.map Prod.snd)

end Composites

/-- The composites, with what their constructors are given. -/
inductive CompositeKind where
  | selector (withStateful : Bool)
  | sequence (withStateful : Bool)
  | ifElse
  | priority
  | parallelCounts (failc succc : Int)
  | parallel (failp : FailurePolicy) (succp : SuccessPolicy)
  deriving DecidableEq, Repr

def FailurePolicy.minCount (size : Nat) : FailurePolicy -> Int
  | failedOnOne => 1
  | failedOnAll => size

def SuccessPolicy.minCount (size : Nat) : SuccessPolicy -> Int
  | succeedOnOne => 1
  | succeedOnAll => size

namespace CompositeKind

def execute [DecidableEq ι] (self : ι) (children : List (Tick ι σ)) : CompositeKind -> Body ι σ
  | .selector _ => Brain.selector self children
  | .sequence _ => Brain.sequence self children
  | .ifElse => Brain.ifElse children
  | .priority => Brain.priority children
  | .parallelCounts failc succc => Brain.parallel failc succc children
  | .parallel failp succp =>
      Brain.parallel (failp.minCount children.length) (succp.minCount children.length) children

/-- The statuses with which `reset` reaches the node and its children.  The
stateful composites only let one status through. -/
def resets (status : Status) : CompositeKind -> Bool
  | .selector true => status = .failure
  | .sequence true => status = .success
  | _ => true

end CompositeKind

/-! ## Decorators -/

/-- The decorators.  The assertion in the constructor of `RetryUntilSuccessful`
only leaves positive numbers of attempts; zero stands for the others. -/
inductive DecoratorKind where
  | runner
  | failer
  | succeeder
  | inverter
  | repeater (limit : Int)
  | retryUntilSuccessful (attemps : Nat)
  | duration (d : Int)
  | untilSuccess
  | untilFailure
  deriving DecidableEq, Repr

def Status.invert : Status -> Status
  | success => failure
  | failure => success
  | other => other

/-- The value of a number that is stored in an `int32_t`. -/
def int32 (value : Int) : Int :=
  value.bmod (2 ^ 32)

section Decorators

/-- Return a status whatever the child returns. -/
def returning (status : Status) (child : Tick ι σ) : Action ι σ (Status × List (Log ι)) := do
  let (_, log) ← child
  return (status, [log])

def runner (child : Tick ι σ) : Action ι σ (Status × List (Log ι)) :=
  returning .running child

def failer (child : Tick ι σ) : Action ι σ (Status × List (Log ι)) :=
  returning .failure child

def succeeder (child : Tick ι σ) : Action ι σ (Status × List (Log ι)) :=
  returning .success child

def inverter (child : Tick ι σ) : Action ι σ (Status × List (Log ι)) := do
  let (s, log) ← child
  return (s.invert, [log])

def repeater [DecidableEq ι] (limit : Int) (self : ι) (child : Tick ι σ) :
    Action ι σ (Status × List (Log ι)) := do
  let entry ← Context.get self
  let (_, log) ← child
  let count := if 0 < limit then int32 entry + 1 else int32 entry
  if 0 < limit ∧ count = limit then return (.success, [log])
  else do
    Context.set self count
    return (.running, [log])

def retryUntilSuccessful (child : Tick ι σ) : Nat -> Action ι σ (Status × List (Log ι))
  | 0 => failure
  | num + 1 => do
      let (ret, log) ← child
      if ret = .success ∨ num = 0 then return (ret, [log])
      else do
        let (status, logs) ← retryUntilSuccessful child num
        return (status, log :: logs)

def duration [DecidableEq ι] (now : σ -> Int × σ) (d : Int) (self : ι) (child : Tick ι σ) :
    Action ι σ (Status × List (Log ι)) := do
  let expiretime ← Context.get self
  let time ← Program.external now
  let (s, log) ← child
  if s = .failure then return (.success, [log])
  else if expiretime = 0 then do
    Context.set self (time + d)
    return (.running, [log])
  else if expiretime < time then return (.success, [log])
  else return (.running, [log])

/-- The loops of `UntilSuccess` and `UntilFailure`, which end with `Success` when
the child returns `stop`. -/
def untilStatus (stop : Status) (child : Tick ι σ) : Nat -> Action ι σ (Status × List (Log ι))
  | 0 => failure
  | fuel + 1 => do
      let (s, log) ← child
      if s = stop then return (.success, [log])
      else do
        let (status, logs) ← untilStatus stop child fuel
        return (status, log :: logs)

def untilSuccess (fuel : Nat) (child : Tick ι σ) : Action ι σ (Status × List (Log ι)) :=
  untilStatus .success child fuel

def untilFailure (fuel : Nat) (child : Tick ι σ) : Action ι σ (Status × List (Log ι)) :=
  untilStatus .failure child fuel

end Decorators

def DecoratorKind.execute [DecidableEq ι] (setting : Setting ι σ) (fuel : Nat) (self : ι)
    (child : Tick ι σ) : DecoratorKind -> Body ι σ
  | .runner => Brain.runner child
  | .failer => Brain.failer child
  | .succeeder => Brain.succeeder child
  | .inverter => Brain.inverter child
  | .repeater limit => Brain.repeater limit self child
  | .retryUntilSuccessful attemps => Brain.retryUntilSuccessful child attemps
  | .duration d => Brain.duration setting.now d self child
  | .untilSuccess => Brain.untilSuccess fuel child
  | .untilFailure => Brain.untilFailure fuel child

/-! ## Trees -/

/-- A node with its name and its children.  Every decorator has a child. -/
inductive Node (ι : Type) where
  | leaf (self : ι)
  | composite (self : ι) (kind : CompositeKind) (children : List (Node ι))
  | decorator (self : ι) (kind : DecoratorKind) (child : Node ι)
  deriving Repr

namespace Node

variable [DecidableEq ι]

mutual

/-- The virtual function `reset`. -/
def reset (setting : Setting ι σ) (status : Status) : Node ι -> Action ι σ Unit
  | .leaf self => setting.reset self status
  | .composite self kind children =>
      if kind.resets status then do
        Context.set self (-1)
        resetAll setting status children
      else return ()
  | .decorator self _ child => do
      Context.set self (-1)
      reset setting status child

def resetAll (setting : Setting ι σ) (status : Status) : List (Node ι) -> Action ι σ Unit
  | [] => return ()
  | child :: children => do
      reset setting status child
      resetAll setting status children

end

/-- The end of `update`. -/
def resetUnlessRunning (setting : Setting ι σ) (node : Node ι) (status : Status) : Action ι σ Unit :=
  if status ≠ .running then node.reset setting status else return ()

mutual

def update (setting : Setting ι σ) (fuel : Nat) : Node ι -> Action ι σ (Status × Log ι)
  | .leaf self => do
      let status ← setting.execute self
      resetUnlessRunning setting (.leaf self) status
      return (status, .leaf self status)
  | .composite self kind children => do
      let entry ← Context.get self
      let (status, calls) ← kind.execute self (updates setting fuel children)
      resetUnlessRunning setting (.composite self kind children) status
      return (status, .inner self entry status calls)
  | .decorator self kind child => do
      let entry ← Context.get self
      let (status, calls) ← kind.execute setting fuel self (update setting fuel child)
      resetUnlessRunning setting (.decorator self kind child) status
      return (status, .inner self entry status calls)

def updates (setting : Setting ι σ) (fuel : Nat) :
    List (Node ι) -> List (Action ι σ (Status × Log ι))
  | [] => []
  | child :: children => update setting fuel child :: updates setting fuel children

end

/-- A run of a tree.  Before every update the environment may have changed. -/
def run (setting : Setting ι σ) (fuel : Nat) (root : Node ι) :
    List (σ -> σ) -> Action ι σ (List (Status × Log ι))
  | [] => return []
  | change :: changes => do
      Program.external fun outside => ((), change outside)
      let result ← root.update setting fuel
      let results ← run setting fuel root changes
      return result :: results

end Node

/-- Leaves that make an entry of their own and return what a table says. -/
def Setting.scripted [DecidableEq ι] (statuses : ι -> σ -> Status) : Setting ι σ where
  execute self := do
    Context.set self 1
    Program.external fun outside => (statuses self outside, outside)
  reset self _ := Context.set self (-1)
  now outside := (0, outside)

/-- A context without entries. -/
def World.new (environment : σ) : World ι σ where
  cells := fun _ => none
  outside := environment

end Brain
end ServerTech
