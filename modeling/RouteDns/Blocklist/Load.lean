import RouteDns.Dns.Name
import Mathlib.Data.List.Induction

/-!
# Loading a list of rules

A loader hands its rules over one by one.  It may abandon a list part way, when a rule is
refused or the list cannot be read on, and then resets what was built before it starts over.
The loads that succeed are those whose last attempt got through.
-/

namespace RouteDns.Blocklist

open Dns

/-- A match of a database, for the log. -/
structure BlocklistMatch where
  list : Text
  rule : Text
  deriving DecidableEq

/-- The calls a loader makes. -/
inductive LoadEvent where
  | reset
  | rule (line : Text)

variable {σ ε : Type}

/-- Build a database from the calls of a loader.  An error ends the attempt, so that only a
reset leads on from it. -/
def load (start : σ) (add : σ → Text → Except ε σ) (events : List LoadEvent) : Except ε σ :=
  events.foldl (fun built event =>
    match event with
    | .reset => .ok start
    | .rule line => built.bind fun state => add state line) (.ok start)

/-- The rules of the last attempt. -/
def lastAttempt (events : List LoadEvent) : List Text :=
  events.foldl (fun lines event =>
    match event with
    | .reset => []
    | .rule line => lines ++ [line]) []

/-- A load builds what the rules of the last attempt build. -/
theorem load_eq (start : σ) (add : σ → Text → Except ε σ) (events : List LoadEvent) :
    load start add events = (lastAttempt events).foldlM add start := by
  unfold load lastAttempt
  induction events using List.reverseRecOn with
  | nil => rfl
  | append_singleton events event ih =>
    rw [List.foldl_append, List.foldl_append, ih]
    cases event with
    | reset => rfl
    | rule line =>
      simp only [List.foldl_cons, List.foldl_nil, List.foldlM_append, List.foldlM_cons,
        List.foldlM_nil, bind_pure]
      rfl

/-- The load of a fixed list. -/
def loadOf (lines : List Text) : List LoadEvent :=
  lines.map .rule

theorem lastAttempt_append_loadOf (events : List LoadEvent) (lines : List Text) :
    lastAttempt (events ++ loadOf lines) = lastAttempt events ++ lines := by
  induction lines using List.reverseRecOn with
  | nil => simp [loadOf]
  | append_singleton lines line ih =>
    have last : events ++ loadOf (lines ++ [line]) =
        (events ++ loadOf lines) ++ [.rule line] := by
      simp [loadOf]
    rw [last, ← List.append_assoc, ← ih]
    exact List.foldl_append

theorem lastAttempt_loadOf (lines : List Text) : lastAttempt (loadOf lines) = lines :=
  lastAttempt_append_loadOf [] lines

theorem lastAttempt_append_reset (events : List LoadEvent) :
    lastAttempt (events ++ [.reset]) = [] :=
  List.foldl_append

end RouteDns.Blocklist
