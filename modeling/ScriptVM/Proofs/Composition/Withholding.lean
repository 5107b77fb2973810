import ScriptVM.Proofs.Composition.Frames
import ScriptVM.Proofs.Quiet

/-!
# Withholding the numbers of objects

The number of an object shows in one place only: in the hash that an object has as itself. A machine
that withholds the numbers from some number on gives up when it is to compute such a hash of such an
object. What it ends with is what the ordinary machine ends with, and it cannot tell the objects from
the same objects under other numbers.
-/
namespace ScriptVM

/-- Whether calling a value asks an object from some number on for the hash that comes from its
number. -/
def Machine.asksNumber (m : Machine) (first : Option Nat) (callee : Value) : Bool :=
  match m.heap.kind callee with
  | .function ⟨.builtin .hash, receiver⟩ =>
    (m.heap.tag (receiver.getD callee)).hashesNumber &&
      first.any (· ≤ (receiver.getD callee).address)
  | _ => false

/-- Gives up where a call would ask for a number that is withheld. -/
def Run.withhold {α : Type} (first : Option Nat) (callee : Value) (x : Run α) : Run α := fun m =>
  if m.asksNumber first callee then .error (.gaveUp .tripwire) m else x m

/-- The machine with some fuel that withholds the numbers of objects from some number on. -/
def Engine.withholding (first : Option Nat) (digests : Digests) : Nat → Engine
  | 0 => ⟨0, fun _ _ => Run.giveUp, fun _ _ => Run.giveUp, digests, false⟩
  | fuel + 1 =>
    ⟨fuel + 1,
      fun callee args =>
        Run.withhold first callee ((withholding first digests fuel).callValue callee args),
      fun id c => Run.activation id ((withholding first digests fuel).run id c), digests, false⟩

section withholding

variable {m n : Machine} {first first' : Option Nat} {callee : Value} {α : Type} {x : Run α}
  {digests : Digests}

theorem Machine.asksNumber_of_kind {receiver : Option Value}
    (h : m.heap.kind callee = .function ⟨.builtin .hash, receiver⟩) :
    m.asksNumber first callee = ((m.heap.tag (receiver.getD callee)).hashesNumber &&
      first.any (· ≤ (receiver.getD callee).address)) := by
  rw [asksNumber, h]

@[simp] theorem Machine.asksNumber_none : m.asksNumber none callee = false := by
  unfold asksNumber
  split
  · exact Bool.and_false _
  · rfl

theorem Run.withhold_of_asked (h : m.asksNumber first callee = true) :
    Run.withhold first callee x m = .error (.gaveUp .tripwire) m := if_pos h

theorem Run.withhold_of_not_asked (h : m.asksNumber first callee = false) :
    Run.withhold first callee x m = x m := if_neg (Bool.eq_false_iff.1 h)

@[simp] theorem Run.withhold_none : Run.withhold none callee x = x :=
  funext fun _ => Run.withhold_of_not_asked Machine.asksNumber_none

/-- A machine that withholds nothing is the ordinary one. -/
theorem Engine.withholding_none (fuel : Nat) :
    withholding none digests fuel = withFuel fuel digests := by
  induction fuel with
  | zero => rfl
  | succ fuel ih => simp [withholding, withFuel, ih]

@[simp] theorem Engine.fuel_withholding (fuel : Nat) :
    (withholding first digests fuel).fuel = fuel := by
  cases fuel <;> rfl

@[simp] theorem Engine.digests_withholding (fuel : Nat) :
    (withholding first digests fuel).digests = digests := by
  cases fuel <;> rfl

/-- Only an object that exists has a hash that comes from its number. -/
theorem Machine.lt_of_hashesNumber {v : Value} (h : (m.heap.tag v).hashesNumber = true) :
    v.address < m.objectCount := by
  by_contra hge
  rw [Heap.tag, Heap.kind, Heap.get_of_le (Nat.not_lt.1 hge)] at h
  cases h

end withholding

/-! ## What the ordinary machine ends with -/

namespace Lasting

variable {first : Option Nat} {α : Type} {x y : Run α} {digests : Digests}

/-- Nothing is said where the first machine stops at a tripwire. -/
abbrev oneSided : Passage := still (fun _ => False) True

theorem carries_withhold (callee : Value) (h : oneSided.Carries x y id) :
    oneSided.Carries (Run.withhold first callee x) y id := by
  constructor
  · intro m
    have hgrows := h.grows m
    unfold Run.after at hgrows ⊢
    cases hasks : m.asksNumber first callee with
    | true => rw [Run.withhold_of_asked hasks]
    | false =>
      rw [Run.withhold_of_not_asked hasks]
      exact hgrows
  · rintro m n ⟨rfl, hn⟩ - -
    cases hasks : n.asksNumber first callee with
    | true =>
      rw [Run.withhold_of_asked hasks]
      exact .unsaid n _ ⟨rfl, trivial⟩
    | false =>
      rw [Run.withhold_of_not_asked hasks]
      exact h.holds n n ⟨rfl, hn⟩ trivial trivial

theorem withholding_knot (first : Option Nat) (fuel : Nat) :
    oneSided.Knot (.withholding first digests fuel) (.withFuel fuel digests) := by
  have hstrict : ∀ why stop, oneSided.excuses why stop → stop = .gaveUp why :=
    fun _ _ => strict_of_not_excused fun _ => id
  induction fuel with
  | zero => exact knot_of_calls hstrict ⟨rfl, rfl⟩ rfl rfl (fun _ _ => .giveUp) fun _ _ => .giveUp
  | succ fuel ih =>
    refine knot_of_calls hstrict ⟨rfl, rfl⟩ rfl rfl (fun callee args => ?_) fun f c => ?_
    · exact carries_withhold callee (callValue ih callee args)
    · have F := (anything (fun _ => False) True).frames
      exact F.activation f (F.run ih (places _) f c)

end Lasting

namespace Engine

variable {first : Option Nat} {fuel steps : Nat} {id : FrameId} {c : Cursor} {m : Machine}
  {digests : Digests}

theorem dispatch_of_withholding
    (hend : hasEnded ((withholding first digests fuel).dispatch steps id c m) = true) :
    (withFuel fuel digests).dispatch steps id c m =
      (withholding first digests fuel).dispatch steps id c m := by
  have F := (Lasting.anything (fun _ => False) True).frames
  exact Lasting.eq_of_matches Flow.rename_id
    ((F.dispatch (Lasting.withholding_knot first fuel) (Lasting.places _) steps id c).holds m m
      ⟨rfl, trivial⟩ trivial
      trivial) hend

end Engine

/-! ## Machines with an object more -/

namespace Passage

variable {root : FrameId} {gap : Nat} {filled : Bool} {first first' : Option Nat} {m n : Machine}
  {callee : Value}
  {digests : Digests}

/-- Two machines withhold the same: what one is asked for is what the other one is asked for, and
whatever is not withheld keeps its number. -/
structure WithholdAlike (gap : Nat) (filled : Bool) (first first' : Option Nat) : Prop where
  asks : ∀ {root : FrameId} {m n : Machine}, m.Shifted root gap filled n → ∀ callee,
    n.asksNumber first' (callee.shift gap) = m.asksNumber first callee
  keeps : ∀ {root : FrameId} {m n : Machine}, m.Shifted root gap filled n → ∀ callee,
    m.asksNumber first callee = false → (Passage.shift root gap filled).KeepsNumber callee m

/-- What the callee of a hash refers to is renamed with it. -/
theorem asksNumber_shift (h : m.Shifted root gap filled n)
    (hfirst : ∀ object : Value, (m.heap.tag object).hashesNumber = true →
      first'.any (· ≤ (object.shift gap).address) = first.any (· ≤ object.address)) :
    n.asksNumber first' (callee.shift gap) = m.asksNumber first callee := by
  have hkind := h.heap.kind callee
  cases hk : m.heap.kind callee with
  | function f =>
    obtain ⟨callable, receiver⟩ := f
    rw [hk] at hkind
    cases callable with
    | code c => simp only [Machine.asksNumber, hk, hkind, Kind.rename, Function.rename]
    | builtin s =>
      cases s with
      | hash =>
        have hreceiver : (receiver.map (Value.shift gap)).getD (callee.shift gap) =
            (receiver.getD callee).shift gap := by
          cases receiver <;> rfl
        have htag : n.heap.tag ((receiver.getD callee).shift gap) =
            m.heap.tag (receiver.getD callee) := by
          rw [Heap.tag, h.heap.kind, Kind.tag_rename, Heap.tag]
        rw [Machine.asksNumber_of_kind hkind, Machine.asksNumber_of_kind hk, hreceiver, htag]
        cases hnumber : (m.heap.tag (receiver.getD callee)).hashesNumber with
        | true => rw [hfirst _ hnumber]
        | false => rfl
      | _ => simp only [Machine.asksNumber, hk, hkind, Kind.rename, Function.rename]
  | _ => simp only [Machine.asksNumber, hk, hkind, Kind.rename]

/-- Until objects come as far as the gap, nothing from the gap on is asked for its number. -/
theorem withholdAlike_below (gap : Nat) : WithholdAlike gap false none (some gap) where
  asks h callee := by
    refine asksNumber_shift h fun object hnumber => ?_
    have hlt : object.address < gap := Nat.lt_of_lt_of_le (Machine.lt_of_hashesNumber hnumber)
      (h.below rfl)
    rw [Value.shift_of_lt hlt]
    simpa using hlt
  keeps h callee _ receiver hkind hnumber :=
    Value.shift_of_lt (Nat.lt_of_lt_of_le (Machine.lt_of_hashesNumber hnumber) (h.below rfl))

/-- Behind the gap, the same objects have numbers that are withheld. -/
theorem withholdAlike_above (gap : Nat) : WithholdAlike gap true (some gap) (some (gap + 1)) where
  asks h callee := by
    refine asksNumber_shift h fun object _ => ?_
    rw [Option.any_some, Option.any_some, decide_eq_decide]
    rcases Nat.lt_or_ge object.address gap with hlt | hge
    · rw [Value.shift_of_lt hlt]
      omega
    · rw [Value.shift_of_le hge]
      exact Nat.add_le_add_iff_right
  keeps h callee hasks receiver hkind hnumber := by
    refine Value.shift_of_lt (Nat.lt_of_not_le fun hge => ?_)
    rw [Machine.asksNumber_of_kind hkind, hnumber, Option.any_some, decide_eq_true hge] at hasks
    cases hasks

theorem WithholdAlike.withhold (W : WithholdAlike gap filled first first') {x y : Run Value}
    (h : (Passage.shift root gap filled).CarriesWhen
      ((Passage.shift root gap filled).KeepsNumber callee) x y
      (Value.shift gap)) :
    (Passage.shift root gap filled).Carries (Run.withhold first callee x)
      (Run.withhold first' (callee.shift gap) y) (Value.shift gap) := by
  constructor
  · intro m
    have hgrows := h.grows m
    unfold Run.after at hgrows ⊢
    cases hasks : m.asksNumber first callee with
    | true => rw [Run.withhold_of_asked hasks]
    | false =>
      rw [Run.withhold_of_not_asked hasks]
      exact hgrows
  · intro m n hmn _ hroom
    have hsame := W.asks hmn callee
    unfold Run.after at hroom
    cases hasks : m.asksNumber first callee with
    | true =>
      rw [Run.withhold_of_asked hasks, Run.withhold_of_asked (hsame.trans hasks)]
      exact .gaveUp m n rfl
    | false =>
      rw [Run.withhold_of_not_asked hasks] at hroom ⊢
      rw [Run.withhold_of_not_asked (hsame.trans hasks)]
      exact h.holds m n hmn (W.keeps hmn callee hasks) hroom

/-- What machines do that withhold the same carries over. -/
theorem WithholdAlike.knot (W : WithholdAlike gap filled first first') (digests : Digests)
    (fuel : Nat) :
    (Passage.shift root gap filled).Knot (.withholding first digests fuel)
      (.withholding first' digests fuel) := by
  have F := shift_frames root gap filled
  have hfuel : ∀ fuel, (Engine.withholding first' digests fuel).fuel =
      (Engine.withholding first digests fuel).fuel := fun _ => by rw [Engine.fuel_withholding,
        Engine.fuel_withholding]
  induction fuel with
  | zero =>
    exact F.knot_of_calls (fun _ _ h => h) (fun _ _ _ => trivial) (fun _ => trivial) ⟨rfl, rfl⟩
      (hfuel 0)
      (by simp) (fun _ _ => .giveUp) fun _ _ => .giveUp
  | succ fuel ih =>
    refine F.knot_of_calls (fun _ _ h => h) (fun _ _ _ => trivial) (fun _ => trivial) ⟨rfl, rfl⟩
      (hfuel (fuel + 1)) (by simp) (fun callee args => ?_) fun f c => ?_
    · exact W.withhold (F.callValue ih callee args)
    · exact F.activation f (F.run ih (places_shift root gap filled) f c)

theorem WithholdAlike.dispatch (W : WithholdAlike gap filled first first') (root : FrameId)
    (digests : Digests) (fuel steps : Nat) (id : FrameId) (c : Cursor) :
    (Passage.shift root gap filled).Carries
      ((Engine.withholding first digests fuel).dispatch steps id c)
      ((Engine.withholding first' digests fuel).dispatch steps id c) (Flow.rename (Value.shift gap)) :=
  (shift_frames root gap filled).dispatch (W.knot digests fuel)
    (places_shift root gap filled) steps id c

end Passage

/-! ## The log -/

section quiet

open Likeness

variable {first : Option Nat} {α : Type} {left right : Aside} {w : CallStack} {x y : Run α}
  {p : CallStack → α → Prop} {digests : Digests}

/-- What is withheld does not depend on the log. -/
theorem Likeness.agree_withhold (callee : Value) (h : (sparing none left right).Agree w x y p) :
    (sparing none left right).Agree w (Run.withhold first callee x)
      (Run.withhold first callee y) p := by
  intro m n hmn
  have hxy := h m n hmn
  have hsame : n.asksNumber first callee = m.asksNumber first callee := by
    simp only [Machine.asksNumber, hmn.heap]
  cases hasks : m.asksNumber first callee with
  | true =>
    rw [Run.withhold_of_asked hasks]
    trivial
  | false =>
    rw [Run.withhold_of_not_asked hasks, Run.withhold_of_not_asked (hsame.trans hasks)]
    exact hxy

theorem Likeness.withholding_knot (digests : Digests) (first : Option Nat) (fuel : Nat)
    (left right : Aside) :
    Knot (sparingFrames none left right) (.withholding first digests fuel)
      (.withholding first digests fuel) := by
  have build : ∀ {e : Engine},
      (∀ {w callee args}, (sparing none left right).Agree w (e.call callee args)
        (e.call callee args) fun _ _ => True) →
      EntersAlike none left right e e → Knot (sparingFrames none left right) e e := by
    intro e hcall h
    refine ⟨⟨Nat.le_refl _, rfl, h.plain, fun _ _ => hcall.mono fun _ _ _ _ => trivial⟩, ?_, ?_⟩
    · exact fun _ _ _ _ _ _ _ _ => (h.runIn _ _ _ _ _ _).mono fun _ _ _ _ => trivial
    · exact fun _ _ _ => (h.runOperation _ _ _).mono fun _ _ _ _ => trivial
  induction fuel with
  | zero => exact build .giveUp ⟨⟨rfl, rfl⟩, fun _ _ => .giveUp, fun _ _ => rfl⟩
  | succ fuel ih =>
    refine build ?_ ⟨⟨rfl, rfl⟩, fun {w id} c _ => ?_, nofun⟩
    · exact agree_withhold _ ((ih.bodies.callValue trivial fun _ _ => trivial).mono
        fun _ _ _ _ => trivial)
    · exact agree_activation nofun ((ih.run nofun c).mono fun _ _ _ _ => trivial)

theorem Engine.isQuiet_withholding (digests : Digests) (first : Option Nat) (fuel : Nat) :
    (withholding first digests fuel).IsQuiet := by
  have K := Likeness.withholding_knot digests first fuel ⟨[], none⟩ ⟨[], none⟩
  refine ⟨fun id c op => ?_, fun id => ?_⟩
  · exact Run.quiet_of_agree fun _ => K.step nofun c op
  · exact Run.quiet_of_agree fun _ => K.toCalls.popCondition (F := sparingFrames none _ _) nofun

end quiet
end ScriptVM
