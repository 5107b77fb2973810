import Mathlib.Data.List.Basic
import ScriptVM.Machine.Iteration

/-!
# Requests to a generator

A host asks a generator whether it has another value, or for the value. What it would be answered by
a list of values that are ready, with perhaps a failure behind them, is plain: the question looks at
the first value and leaves it there, a request for a value takes it, and a failure is reported once.
-/
namespace ScriptVM

/-- What a generator can be asked. -/
inductive Ask where
  /-- Whether there is another value. -/
  | hasNext
  /-- The next value, as of any iterator. -/
  | next
  /-- The next value, as of a generator. -/
  | resume
  deriving DecidableEq

/-- What comes of a request. -/
inductive Reply where
  | has (b : Bool)
  | delivered (v : Option Value)
  | failed (f : Failure)

/-- The value that a reply hands over. -/
def Reply.value? : Reply → Option Value
  | .delivered v => v
  | _ => none

namespace Ask

/-- Whether a request takes the value. -/
def delivers : Ask → Bool
  | .hasNext => false
  | .next | .resume => true

/-- The reply where a value is ready. -/
def found (v : Value) : Ask → Reply
  | .hasNext => .has true
  | .next | .resume => .delivered (some v)

/-- The reply where there is no value and never will be. -/
def missed : Ask → Reply
  | .hasNext => .has false
  | .next | .resume => .delivered none

end Ask

/-- The replies of a list of values, with a failure behind them or without. -/
def replies : List Value → Option Failure → List Ask → List Reply
  | _, _, [] => []
  | v :: vs, failure, a :: rest =>
    a.found v :: replies (if a.delivers then vs else v :: vs) failure rest
  | [], some f, _ :: rest => .failed f :: replies [] none rest
  | [], none, a :: rest => a.missed :: replies [] none rest

section replies

variable {vs : List Value} {failure : Option Failure} {asks : List Ask} {a : Ask} {v : Value}

@[simp] theorem Ask.value?_found : (a.found v).value? = if a.delivers then some v else none := by
  cases a <;> rfl

@[simp] theorem Ask.value?_missed : a.missed.value? = none := by
  cases a <;> rfl

@[simp] theorem Reply.value?_failed (f : Failure) : (Reply.failed f).value? = none := rfl

/-- The values are handed over in order, one for each request that takes one. -/
theorem filterMap_replies (vs : List Value) (failure : Option Failure) (asks : List Ask) :
    (replies vs failure asks).filterMap Reply.value? = vs.take (asks.countP Ask.delivers) := by
  induction asks generalizing vs failure with
  | nil => simp [replies]
  | cons a rest ih =>
    match vs, failure with
    | v :: vs, failure => cases ha : a.delivers <;> simp [replies, ha, ih]
    | [], some f => simp only [replies, List.filterMap_cons, Reply.value?_failed, ih, List.take_nil]
    | [], none => simp [replies, ih]

/-- There is another value exactly if the next request that takes one gets one. -/
theorem replies_hasNext (vs : List Value) (failure : Option Failure) (asks : List Ask) (i : Nat)
    (hi : asks[i]? = some .hasNext) (ha : asks[i + 1]? = some a) (hdelivers : a.delivers = true) :
    (replies vs failure asks)[i]? = some (.has true) ↔
      ∃ v, (replies vs failure asks)[i + 1]? = some (.delivered (some v)) := by
  induction i generalizing vs failure asks with
  | zero =>
    match asks, hi, ha with
    | .hasNext :: b :: rest, _, ha =>
      obtain rfl : b = a := by simpa using ha
      match vs, failure with
      | v :: vs, failure => cases b <;> simp_all [replies, Ask.found, Ask.delivers]
      | [], some f => cases b <;> simp_all [replies, Ask.missed, Ask.delivers]
      | [], none => cases b <;> simp_all [replies, Ask.missed, Ask.delivers]
  | succ i ih =>
    cases asks with
    | nil => cases hi
    | cons b rest =>
      match vs, failure with
      | v :: vs, failure => exact ih _ _ rest hi ha
      | [], some f => exact ih _ _ rest hi ha
      | [], none => exact ih _ _ rest hi ha

end replies

namespace Engine

/-- What comes of a request. -/
def ask (e : Engine) (g : Value) : Ask → Run Reply
  | .hasNext => do return .has (← e.hasNext g)
  | .next => do return .delivered (← e.next g)
  | .resume => do return .delivered (← e.resume g)

/-- What comes of requests one after the other. A host goes on after a failure. -/
def asks (e : Engine) (g : Value) : List Ask → Run (List Reply)
  | [] => return []
  | a :: rest => fun m =>
    match e.ask g a m with
    | .ok r m => (List.cons r <$> e.asks g rest) m
    | .error (.failed f) m => (List.cons (.failed f) <$> e.asks g rest) m
    | .error (.gaveUp why) m => .error (.gaveUp why) m

end Engine
end ScriptVM
