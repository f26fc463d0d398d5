import SharkSocket.Core
import SharkSocket.Lib.StableSort

/-!
# `runtime/plugin_chain.go`: `PluginChain`

A chain publishes one view of its plugins at a time, in order of priority.  Every
operation loads the view once, so within an operation the plugins are a fixed list
and a plugin is named by its place in it.

Plugins are user code: `OnAccept` may return an error or panic and `OnClose` may
panic.  What they do in one operation is given by functions of the place.  An
operation's model returns its result and the calls and log lines it made, in order.

`Append` sorts by the difference of the priorities, which tells them apart as long as it
does not wrap; the chain is then one stable sort of all plugins (`built_stable_sort`).
-/

namespace SharkSocket.Runtime

/-- A `core.Plugin`.  `lifecycle` tells whether it also is a `core.LifecyclePlugin`. -/
structure Plugin where
  id : Nat
  name : String
  priority : Int
  lifecycle : Bool
  deriving DecidableEq, Repr

structure PluginChain where
  plugins : List Plugin
  deriving DecidableEq, Repr

/-- A call of a session's hook, or a line at error level in the log. -/
inductive ChainCall
  | onAccept (p : Plugin) (result : Outcome)
  | onClose (p : Plugin)
  | errorLog (message plugin : String)
  deriving DecidableEq, Repr

namespace PluginChain

/-- The comparison of `Append`, `a.Priority() - b.Priority()`.  An `int` has 64 bits and
the difference wraps. -/
def comparePriority (a b : Plugin) : Int := (a.priority - b.priority).bmod 18446744073709551616

/-- The view after `Append`: nil plugins are skipped, the sort is stable. -/
def append (c : PluginChain) (plugins : List (Option Plugin)) : PluginChain :=
  ⟨Lib.sortStableFunc comparePriority (c.plugins ++ plugins.reduceOption)⟩

def new (plugins : List (Option Plugin)) : PluginChain := append ⟨[]⟩ plugins

/-- `safeClose` recovers from a panic of the plugin. -/
def safeClose (p : Plugin) (panics : Bool) : List ChainCall :=
  .onClose p :: if panics then [.errorLog "plugin close panic" p.name] else []

/-- The loops `for j := n - 1; j >= 0; j--` over `safeClose`. -/
def closeDown (view : List Plugin) (panics : Nat → Bool) : Nat → List ChainCall
  | 0 => []
  | n + 1 =>
    match view[n]? with
    | some p => safeClose p (panics n) ++ closeDown view panics n
    | none => closeDown view panics n

/-- The loop of `OnAccept` at the place `i`.  A panic is recovered by the deferred
function, which finds in `at` the place that the loop had reached. -/
def acceptFrom (view : List Plugin) (accept : Nat → Outcome) (panics : Nat → Bool) :
    Nat → List Plugin → Option Err × List ChainCall
  | _, [] => (none, [])
  | i, p :: rest =>
    match accept i with
    | .ok =>
      let r := acceptFrom view accept panics (i + 1) rest
      (r.1, .onAccept p .ok :: r.2)
    | .err e => (some e, .onAccept p (.err e) :: closeDown view panics i)
    | .panic =>
      (some .pluginPanic, .onAccept p .panic :: .errorLog "plugin accept panic" p.name ::
        closeDown view panics i)

def onAccept (c : PluginChain) (accept : Nat → Outcome) (panics : Nat → Bool) :
    Option Err × List ChainCall := acceptFrom c.plugins accept panics 0 c.plugins

def onClose (c : PluginChain) (panics : Nat → Bool) : List ChainCall :=
  closeDown c.plugins panics c.plugins.length

end PluginChain

/-! ### The calls of a hook -/

/-- The plugins whose `OnClose` was called, in order. -/
def closes (calls : List ChainCall) : List Plugin :=
  calls.filterMap fun
    | .onClose p => some p
    | _ => none

/-- The plugins whose `OnAccept` was called, with what it did. -/
def accepts (calls : List ChainCall) : List (Plugin × Outcome) :=
  calls.filterMap fun
    | .onAccept p o => some (p, o)
    | _ => none

@[simp] theorem closes_onAccept (p : Plugin) (o : Outcome) (calls : List ChainCall) :
    closes (.onAccept p o :: calls) = closes calls := rfl

@[simp] theorem accepts_onAccept (p : Plugin) (o : Outcome) (calls : List ChainCall) :
    accepts (.onAccept p o :: calls) = (p, o) :: accepts calls := rfl

@[simp] theorem closes_errorLog (m n : String) (calls : List ChainCall) :
    closes (.errorLog m n :: calls) = closes calls := rfl

@[simp] theorem accepts_errorLog (m n : String) (calls : List ChainCall) :
    accepts (.errorLog m n :: calls) = accepts calls := rfl

@[simp] theorem closes_append (calls more : List ChainCall) :
    closes (calls ++ more) = closes calls ++ closes more := by
  simp [closes]

@[simp] theorem accepts_append (calls more : List ChainCall) :
    accepts (calls ++ more) = accepts calls ++ accepts more := by
  simp [accepts]

namespace PluginChain

@[simp] theorem closes_safeClose (p : Plugin) (panics : Bool) : closes (safeClose p panics) = [p] := by
  cases panics with
  | false | true => rfl

@[simp] theorem accepts_safeClose (p : Plugin) (panics : Bool) :
    accepts (safeClose p panics) = [] := by
  cases panics with
  | false | true => rfl

/-- **Panics do not stop the loop**: the first `n` plugins are closed, last one first. -/
theorem closes_closeDown (view : List Plugin) (panics : Nat → Bool) (n : Nat) :
    closes (closeDown view panics n) = (view.take n).reverse := by
  induction n with
  | zero => rfl
  | succ n ih =>
    rw [closeDown, List.take_add_one]
    cases hp : view[n]? with
    | none => simpa using ih
    | some p => simp [ih]

theorem accepts_closeDown (view : List Plugin) (panics : Nat → Bool) (n : Nat) :
    accepts (closeDown view panics n) = [] := by
  induction n with
  | zero => rfl
  | succ n ih =>
    rw [closeDown]
    cases hp : view[n]? with
    | none => exact ih
    | some p => simp [ih]

/-- The error `OnAccept` returns when a plugin does this. -/
def failure : Outcome → Option Err
  | .ok => none
  | .err e => some e
  | .panic => some .pluginPanic

/-- What the loop of `OnAccept` does from the place `i` on: it fails at some place `i + k`,
after which the plugins below that place are closed, or it gets to the end. -/
theorem acceptFrom_cases (view : List Plugin) (accept : Nat → Outcome) (panics : Nat → Bool)
    (i : Nat) (rest : List Plugin) :
    (∃ k p, rest[k]? = some p ∧ (∀ j < k, accept (i + j) = .ok) ∧ accept (i + k) ≠ .ok ∧
      (acceptFrom view accept panics i rest).1 = failure (accept (i + k)) ∧
      accepts (acceptFrom view accept panics i rest).2 =
        (rest.take k).map (·, .ok) ++ [(p, accept (i + k))] ∧
      closes (acceptFrom view accept panics i rest).2 = (view.take (i + k)).reverse) ∨
    ((∀ j < rest.length, accept (i + j) = .ok) ∧ (acceptFrom view accept panics i rest).1 = none ∧
      accepts (acceptFrom view accept panics i rest).2 = rest.map (·, .ok) ∧
      closes (acceptFrom view accept panics i rest).2 = []) := by
  induction rest generalizing i with
  | nil => exact .inr ⟨by simp, rfl, rfl, rfl⟩
  | cons p rest ih =>
    rw [acceptFrom]
    cases ho : accept i with
    | err e | panic =>
      refine .inl ⟨0, p, rfl, by simp, by simp [ho], by simp [ho, failure], ?_, ?_⟩
      · simp [accepts_closeDown, ho]
      · simp [closes_closeDown]
    | ok =>
      have hshift : ∀ j, accept (i + 1 + j) = accept (i + (j + 1)) := fun j => by
        rw [Nat.add_assoc, Nat.add_comm 1]
      have hfirst : ∀ {n}, (∀ j < n, accept (i + 1 + j) = .ok) →
          ∀ j < n + 1, accept (i + j) = .ok := by
        intro n hall j hj
        cases j with
        | zero => exact ho
        | succ j =>
          rw [← hshift]
          exact hall j (by omega)
      rcases ih (i + 1) with ⟨k, q, hq, hall, hfail, herr, haccepts, hcloses⟩ |
        ⟨hall, herr, haccepts, hcloses⟩
      · rw [hshift] at hfail herr haccepts
        refine .inl ⟨k + 1, q, hq, hfirst hall, hfail, herr, ?_, ?_⟩
        · simp [haccepts]
        · rw [closes_onAccept, hcloses, Nat.add_assoc, Nat.add_comm 1]
      · refine .inr ⟨hfirst hall, herr, ?_, ?_⟩
        · simp [haccepts]
        · rw [closes_onAccept, hcloses]

variable (c : PluginChain) (accept : Nat → Outcome) (panics : Nat → Bool)

/-- `OnAccept` of the whole chain: how it fails at the place `i`, and how it succeeds. -/
theorem onAccept_cases :
    (∃ i p, c.plugins[i]? = some p ∧ (∀ j < i, accept j = .ok) ∧ accept i ≠ .ok ∧
      (c.onAccept accept panics).1 = failure (accept i) ∧ accepts (c.onAccept accept panics).2 =
        (c.plugins.take i).map (·, .ok) ++ [(p, accept i)] ∧
      closes (c.onAccept accept panics).2 = (c.plugins.take i).reverse) ∨
    ((∀ j < c.plugins.length, accept j = .ok) ∧ (c.onAccept accept panics).1 = none ∧
      accepts (c.onAccept accept panics).2 = c.plugins.map (·, .ok) ∧
      closes (c.onAccept accept panics).2 = []) := by
  have h := acceptFrom_cases c.plugins accept panics 0 c.plugins
  simp only [Nat.zero_add] at h
  exact h

theorem closes_onClose_chain : closes (c.onClose panics) = c.plugins.reverse := by
  rw [onClose, closes_closeDown, List.take_length]

theorem accepts_onClose_chain : accepts (c.onClose panics) = [] :=
  accepts_closeDown _ _ _

theorem failure_ne_none {o : Outcome} (h : o ≠ .ok) : failure o ≠ none := by
  cases o with
  | ok => exact absurd rfl h
  | err e | panic => simp [failure]

/-! ### The order of the chain -/

open Lib

variable (first : List (Option Plugin)) (calls : List (List (Option Plugin)))

/-- The chain after `NewPluginChain` and any number of `Append` calls. -/
def built : PluginChain :=
  calls.foldl append (new first)

/-- The plugins that were given, in order; nil ones are none. -/
def given : List Plugin :=
  (first ++ calls.flatten).reduceOption

theorem comparePriority_neg {p q : Plugin} (hpq : p.priority - q.priority < 9223372036854775808)
    (hqp : q.priority - p.priority < 9223372036854775808) :
    comparePriority p q < 0 ↔ p.priority < q.priority := by
  unfold comparePriority Int.bmod
  dsimp only
  split <;> omega

/-- One `Append` sorts what was there and what it adds. -/
theorem isStableSort_append {c : PluginChain} {l : List Plugin} {plugins : List (Option Plugin)}
    (hsort : IsStableSort Plugin.priority l c.plugins)
    (hfit : ∀ p ∈ l ++ plugins.reduceOption, ∀ q ∈ l ++ plugins.reduceOption,
      p.priority - q.priority < 9223372036854775808) :
    IsStableSort Plugin.priority (l ++ plugins.reduceOption) (c.append plugins).plugins := by
  have hmem : ∀ p ∈ c.plugins ++ plugins.reduceOption, p ∈ l ++ plugins.reduceOption := by
    intro p hp
    rcases List.mem_append.mp hp with hp | hp
    · exact List.mem_append_left _ ((hsort.mem_iff p).mp hp)
    · exact List.mem_append_right _ hp
  refine hsort.append (isStableSort_sortStableFunc ?_)
  intro p hp q hq
  exact comparePriority_neg (hfit p (hmem p hp) q (hmem q hq)) (hfit q (hmem q hq) p (hmem p hp))

theorem isStableSort_foldl_append : ∀ (calls : List (List (Option Plugin))) {c : PluginChain}
    {l : List Plugin}, IsStableSort Plugin.priority l c.plugins →
    (∀ p ∈ l ++ calls.flatten.reduceOption, ∀ q ∈ l ++ calls.flatten.reduceOption,
      p.priority - q.priority < 9223372036854775808) →
    IsStableSort Plugin.priority (l ++ calls.flatten.reduceOption)
      (calls.foldl append c).plugins := by
  intro calls
  induction calls with
  | nil =>
    intro c l hsort _
    simpa using hsort
  | cons plugins calls ih =>
    intro c l hsort hfit
    rw [List.flatten_cons, List.reduceOption_append, ← List.append_assoc] at hfit ⊢
    refine ih (isStableSort_append hsort ?_) hfit
    intro p hp q hq
    exact hfit p (List.mem_append_left _ hp) q (List.mem_append_left _ hq)

/-- **The chain is the stable sort of the plugins by priority**, whichever way they are
spread over `Append` calls, if no two priorities are so far apart that their difference
wraps (`append_wraps`). -/
theorem built_stable_sort (first : List (Option Plugin)) (calls : List (List (Option Plugin)))
    (hfit : ∀ p ∈ given first calls, ∀ q ∈ given first calls,
      p.priority - q.priority < 9223372036854775808) :
    IsStableSort Plugin.priority (given first calls) (built first calls).plugins ∧
      ∀ first' calls', given first' calls' = given first calls →
        built first' calls' = built first calls := by
  have hsort : ∀ first calls, (∀ p ∈ given first calls, ∀ q ∈ given first calls,
      p.priority - q.priority < 9223372036854775808) →
      IsStableSort Plugin.priority (given first calls) (built first calls).plugins := by
    intro first calls hfit
    have hall := isStableSort_foldl_append (first :: calls)
      ⟨List.Pairwise.nil, fun _ => rfl⟩
    exact hall hfit
  refine ⟨hsort first calls hfit, ?_⟩
  intro first' calls' hsame
  have hother := hsort first' calls' (by rwa [hsame])
  rw [hsame] at hother
  have hplugins := hother.unique (hsort first calls hfit)
  exact congrArg PluginChain.mk hplugins

/-- Two plugins of one priority around one that goes first, in one call or in two. -/
theorem built_stable_sort_three :
    built [some ⟨1, "a", 5, false⟩, none] [[some ⟨2, "b", -7, false⟩, some ⟨3, "c", 5, false⟩]] =
        ⟨[⟨2, "b", -7, false⟩, ⟨1, "a", 5, false⟩, ⟨3, "c", 5, false⟩]⟩ ∧
      built [some ⟨1, "a", 5, false⟩, some ⟨2, "b", -7, false⟩, some ⟨3, "c", 5, false⟩] [] =
        built [some ⟨1, "a", 5, false⟩, none]
          [[some ⟨2, "b", -7, false⟩, some ⟨3, "c", 5, false⟩]] := by
  refine ⟨by decide, ?_⟩
  exact (built_stable_sort [some ⟨1, "a", 5, false⟩, none]
    [[some ⟨2, "b", -7, false⟩, some ⟨3, "c", 5, false⟩]] (by decide)).2 _ _ (by decide)

/-- The smallest `int` stays behind a plugin of priority 1. -/
theorem append_wraps :
    (built [some ⟨1, "a", 1, false⟩, some ⟨2, "b", -9223372036854775808, false⟩] []).plugins =
        [⟨1, "a", 1, false⟩, ⟨2, "b", -9223372036854775808, false⟩] ∧
      ¬ IsStableSort Plugin.priority
        (given [some ⟨1, "a", 1, false⟩, some ⟨2, "b", -9223372036854775808, false⟩] [])
        (built [some ⟨1, "a", 1, false⟩, some ⟨2, "b", -9223372036854775808, false⟩]
          []).plugins := by
  have hbuilt : (built [some ⟨1, "a", 1, false⟩, some ⟨2, "b", -9223372036854775808, false⟩]
      []).plugins = [⟨1, "a", 1, false⟩, ⟨2, "b", -9223372036854775808, false⟩] := by
    decide
  refine ⟨hbuilt, fun h => ?_⟩
  exact absurd (List.rel_of_pairwise_cons h.1 List.mem_cons_self) (by decide)

end PluginChain

end SharkSocket.Runtime
