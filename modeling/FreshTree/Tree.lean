import FreshTree.Generation

/-!
Syntax trees and the requests that ask for them. A tree is one parse result of
one unit. Two trees with equal contents are still different parse results, so
a tree carries an identity of its own.
-/

namespace FreshTree

inductive Policy where
  /-- Never blocks. A miss on the active unit gives nothing; any other unit is
  parsed directly. -/
  | noWait
  /-- Serves the cache of the active unit only. Never blocks and never parses. -/
  | activeOnly
  /-- Blocks for the cycle in flight, within the deadline, and then parses. -/
  | waitForCurrent
deriving DecidableEq, Inhabited

namespace Policy

def all : List Policy := [.noWait, .activeOnly, .waitForCurrent]

def name : Policy → String
  | .noWait => "no_wait"
  | .activeOnly => "active_only"
  | .waitForCurrent => "wait_for_current"

def ofName? (text : String) : Option Policy := all.find? fun policy => policy.name == text

theorem ofName?_name (policy : Policy) : ofName? policy.name = some policy := by
  cases policy <;> decide

end Policy

inductive Origin where
  | reconciled (generation : Generation)
  | foreground
  /-- Parsed for a unit that is not active. Such a tree is never cached. -/
  | detached
deriving DecidableEq, Inhabited

def Origin.text : Origin → String
  | .reconciled generation => "Reconciled(" ++ generation.long ++ ")"
  | .foreground => "Foreground"
  | .detached => "Detached"

/-- Tells one parse result from every other one. -/
abbrev TreeId := Nat

structure Tree (U A : Type) where
  id : TreeId
  unit : U
  origin : Origin
  ast : A
deriving DecidableEq

end FreshTree
