import ScriptVM.Proofs.Composition.Sequence

/-!
# Programs compose

A list of nodes is executed as a program of its own, and two lists as two programs on the same machine
or as one program. Both ways come to the same end, unless the second list asks an object that it has
made for the hash that comes from the number of the object.
-/
namespace ScriptVM

open Engine

theorem Program.code_ofBody (nodes : List Node) :
    (ofBody nodes).code = blockCode .inFunction nodes := by
  unfold ofBody
  rw [code_eq, List.nil_append, List.append_nil]

theorem Program.code_append {p q : List Node} {cp cq : Block} (hp : (ofBody p).code = .ok cp)
    (hq : (ofBody q).code = .ok cq) : (ofBody (p ++ q)).code = .ok (cp ++ cq) := by
  rw [code_ofBody] at hp hq ⊢
  rw [blockCode_append, hp, hq]
  rfl

section runs

variable {cp cq : Block} {c : Cursor} {m m₀ m₁ : Machine} {v : Value} {fuel steps : Nat}
  {digests : Digests}

/-- A run of code as a part of the execution of a program with enough fuel. -/
theorem Engine.execute_of_dispatch {code : Cursor} {k : Nat} (hfuel : fuel ≤ k) (hsteps : steps ≤ k)
    (hend : hasEnded ((withFuel fuel digests).dispatch steps m.globals code m) = true) :
    (withFuel k digests).execute code m =
      concluded ((withFuel fuel digests).dispatch steps m.globals code m) := by
  rw [execute_eq, fuel_withFuel, dispatch_withFuel_mono hfuel hsteps hend]

/-- A closed machine on which code has run to its end, and the machine that it leaves behind as a
program. -/
theorem Machine.Closed.shifted_of_execute (hm : m.Closed)
    (hrun : (withFuel fuel digests).dispatch fuel m.globals (.ofList cp) m = .ok (.next c) m₀)
    (hexecute : (withFuel fuel digests).execute (.ofList cp) m = .ok v m₁) :
    m₀.Shifted m.globals m₀.objectCount true m₁ := by
  have hafter : ((withFuel fuel digests).dispatch fuel m.globals (.ofList cp)).after m = m₀ := by
    rw [Run.after, hrun]
  have hclosed := (hm.dispatch (by rw [hrun]; rfl) (Nat.le_refl _)).2
  rw [hafter] at hclosed
  rw [execute_eq, fuel_withFuel, hrun] at hexecute
  obtain ⟨-, rfl⟩ := EStateM.Result.ok.inj hexecute
  exact hclosed.fill .none

/-- Where the second part of a program ends behind the first one without asking for a number that is
withheld, the program and its second part end in the same way. -/
theorem endsShifted_of_dispatch (hp : Sound .plain 0 cp 0) (hq : Sound .plain 0 cq 0)
    (hfits : (cp ++ cq).length ≤ Text.maxCount)
    (hrun : (withFuel fuel digests).dispatch fuel m.globals (.ofList cp) m = .ok (.next c) m₀)
    (hshift : m₀.Shifted m.globals m₀.objectCount true m₁) {k : Nat}
    (hend : hasEnded ((withholding (some m₀.objectCount) digests k).dispatch steps m.globals
      (.ofList cq)
      m₀) = true) :
    ∃ k', EndsShifted m₀.objectCount ((withFuel k' digests).execute (.ofList (cp ++ cq)) m)
      ((withFuel k' digests).execute (.ofList cq) m₁) := by
  have hglobals : m₁.globals = m.globals := hshift.globals.trans hshift.root_eq
  have hmatches :=
    ((Passage.withholdAlike_above m₀.objectCount).dispatch m.globals digests k steps m.globals
    (.ofList cq)).holds m₀ m₁ hshift trivial (.inl rfl)
  have hend' := hmatches.hasEnded_iff ▸ hend
  rw [← dispatch_of_withholding hend, ← dispatch_of_withholding hend'] at hmatches
  rw [← dispatch_of_withholding hend] at hend
  rw [← dispatch_of_withholding hend', ← hglobals] at hend'
  -- All runs are brought to the same fuel, which the inner calls keep.
  have hmore := dispatch_withFuel_mono (Nat.le_max_left k fuel) (Nat.le_refl steps) hend
  have hrun' := dispatch_withFuel_mono (Nat.le_max_right k fuel) (Nat.le_refl fuel)
    (by rw [hrun]; rfl)
  obtain ⟨r, ⟨used, hused⟩, hsame⟩ := hp.ends_append hq hfits (isQuiet_withFuel digests (max k fuel))
    (hrun'.trans hrun) (by rw [hmore, hend])
  have hr : hasEnded r = true := by
    rw [hmore] at hsame
    rw [← hasEnded_concluded, hsame.hasEnded_eq, hasEnded_concluded, hend]
  obtain ⟨k', hfuel, hsteps⟩ : ∃ k', max k fuel ≤ k' ∧ max steps used ≤ k' :=
    ⟨_, Nat.le_max_left _ _, Nat.le_max_right _ _⟩
  have hfirst : (withFuel k' digests).execute (.ofList (cp ++ cq)) m = concluded r := by
    rw [← hused 0]
    exact execute_of_dispatch hfuel (by omega) (by rw [hused 0, hr])
  have hlater : (withFuel k' digests).execute (.ofList cq) m₁ =
      concluded ((withFuel k digests).dispatch steps m₁.globals (.ofList cq) m₁) :=
    execute_of_dispatch (by omega) (by omega) hend'
  refine ⟨k', ?_⟩
  rw [hfirst, hlater, hglobals]
  rw [hmore] at hsame
  exact endsShifted_of_matches hmatches.concluded hsame (by rw [hasEnded_concluded, hend])

end runs

variable {digests : Digests}

/-- Programs compose. The code of two lists of nodes is the concatenation of their codes, and the three
blocks of a program are compiled as one. Let a closed machine execute the first list to its end. When
the second list then ends, or when both lists end as one program, without asking an object made after
the first list for the hash that comes from its number, both ways end with the same outcome and the
same machine, up to the names of objects: the second way has one object more, the `None` of the first
program. -/
theorem Program.execute_append {p q : List Node} {cp cq : Block}
    (hp : (ofBody p).code = .ok cp) (hq : (ofBody q).code = .ok cq) :
    (ofBody (p ++ q)).code = .ok (cp ++ cq) ∧
    (∀ prologue body epilogue : List Node, (Program.mk prologue body epilogue).code =
      (ofBody (prologue ++ body ++ epilogue)).code) ∧
    ∀ {m m₀ m₁ : Machine} {fuel : Nat} {c : Cursor} {v : Value}, m.Closed →
      (cp ++ cq).length ≤ Text.maxCount →
      (withFuel fuel digests).dispatch fuel m.globals (.ofList cp) m = .ok (.next c) m₀ →
      (withFuel fuel digests).execute (.ofList cp) m = .ok v m₁ → ∀ k,
      (hasEnded ((withholding (some m₁.objectCount) digests k).execute (.ofList cq) m₁) = true ∨
        hasEnded ((withholding (some m₀.objectCount) digests k).execute (.ofList (cp ++ cq)) m) =
          true) →
      ∃ k', EndsShifted m₀.objectCount ((withFuel k' digests).execute (.ofList (cp ++ cq)) m)
        ((withFuel k' digests).execute (.ofList cq) m₁) := by
  refine ⟨code_append hp hq, fun prologue body epilogue => ?_, ?_⟩
  · rw [code_eq, code_ofBody]
  intro m m₀ m₁ fuel c v hm hfits hrun hexecute k hend
  have hsoundp := Program.sound hp
  have hsoundq := Program.sound hq
  have hshift := hm.shifted_of_execute hrun hexecute
  have hglobals : m₁.globals = m.globals := hshift.globals.trans hshift.root_eq
  rcases hend with hend | hend
  · rw [execute_eq, fuel_withholding, hasEnded_concluded, hglobals, hshift.count] at hend
    have hmatches :=
      ((Passage.withholdAlike_above m₀.objectCount).dispatch m.globals digests k k m.globals
      (.ofList cq)).holds m₀ m₁ hshift trivial (.inl rfl)
    exact endsShifted_of_dispatch hsoundp hsoundq hfits hrun hshift
      (hmatches.hasEnded_iff.trans hend)
  · rw [execute_eq, fuel_withholding, hasEnded_concluded] at hend
    have hquiet := isQuiet_withholding digests (some m₀.objectCount) k
    obtain ⟨i, hi⟩ := hsoundp.hasEnded_of_append hfits hquiet hend
    have hrun' : (withholding (some m₀.objectCount) digests k).dispatch i m.globals (.ofList cp) m =
        .ok (.next c) m₀ := by
      have hordinary := dispatch_of_withholding hi
      rw [← hordinary] at hi ⊢
      rw [← dispatch_withFuel_mono (Nat.le_max_left k fuel) (Nat.le_max_left i fuel) hi,
        dispatch_withFuel_mono (Nat.le_max_right k fuel) (Nat.le_max_right i fuel)
          (by rw [hrun]; rfl), hrun]
    obtain ⟨j, hj⟩ := hsoundp.hasEnded_behind hsoundq hfits hquiet hrun' hend
    exact endsShifted_of_dispatch hsoundp hsoundq hfits hrun hshift hj

/-- Whether a body goes on behind an instruction. -/
def Flow.goesOn : Flow → Bool
  | .next _ => true
  | .leave .. => false

theorem Flow.eq_next_of_goesOn {flow : Flow} (h : flow.goesOn = true) : ∃ c, flow = .next c := by
  cases flow with
  | next c => exact ⟨c, rfl⟩
  | leave => cases h

/-- The number that is an Integer. -/
def Kind.integer? : Kind → Option Int64
  | .integer n => some n
  | _ => Option.none

theorem Kind.eq_of_integer? {k : Kind} {n : Int64} (h : k.integer? = some n) : k = .integer n := by
  cases k with
  | integer =>
    cases h
    rfl
  | _ => cases h

/-- A function that one program defines and the next one calls. -/
theorem Program.execute_append_call :
    ∃ (p q : List Node) (cp cq : Block) (m₀ m₁ : Machine) (c : Cursor) (v : Value),
      (ofBody p).code = .ok cp ∧ (ofBody q).code = .ok cq ∧
      (withFuel 10 .standard).dispatch 10 (Machine.new .standard).globals (.ofList cp)
        (.new .standard) =
        .ok (.next c) m₀ ∧
      (withFuel 10 .standard).execute (.ofList cp) (.new .standard) = .ok v m₁ ∧
      ∃ k, EndsShifted m₀.objectCount
        ((withFuel k .standard).execute (.ofList (cp ++ cq)) (.new .standard))
        ((withFuel k .standard).execute (.ofList cq) m₁) := by
  let at' : Span := ⟨some 1⟩
  let p : List Node := [.function at' ⟨"f", [], [.exit at' [.integer at' "1"]]⟩]
  let q : List Node := [.exit at' [.call at' (.identifier at' "f") []]]
  have hends : ((ofBody p).code.toOption.any fun cp => (ofBody q).code.toOption.any fun cq =>
      decide ((cp ++ cq).length ≤ Text.maxCount) &&
      (finished? ((withFuel 10 .standard).dispatch 10 (Machine.new .standard).globals (.ofList cp)
        (.new .standard))).any fun x => x.1.goesOn &&
      (finished? ((withFuel 10 .standard).execute (.ofList cp) (.new .standard))).any fun y =>
      hasEnded ((withholding (some y.2.objectCount) .standard 10).execute (.ofList cq) y.2)) =
        true := by
    decide +kernel
  obtain ⟨cp, hp, hends⟩ := (Option.any_eq_true _ _).1 hends
  obtain ⟨cq, hq, hends⟩ := (Option.any_eq_true _ _).1 hends
  obtain ⟨hfits, hends⟩ := (Bool.and_eq_true _ _).mp hends
  obtain ⟨⟨flow, m₀⟩, hrun, hends⟩ := (Option.any_eq_true _ _).1 hends
  obtain ⟨hflow, hlater⟩ := (Bool.and_eq_true _ _).mp hends
  obtain ⟨⟨v, m₁⟩, hexecute, hlater⟩ := (Option.any_eq_true _ _).1 hlater
  obtain ⟨c, rfl⟩ := Flow.eq_next_of_goesOn hflow
  have hp := eq_ok_of_toOption hp
  have hq := eq_ok_of_toOption hq
  have hrun := eq_ok_of_finished? hrun
  have hexecute := eq_ok_of_finished? hexecute
  have hcompose := (execute_append hp hq).2.2 (Machine.closed_new .standard)
    (of_decide_eq_true hfits) hrun hexecute 10 (.inl hlater)
  exact ⟨p, q, cp, cq, m₀, m₁, c, v, hp, hq, hrun, hexecute, hcompose⟩

/-- The hash of an object shows its number: after a program that does nothing, a function that is made
and asked for its hash has another one than in the concatenation. -/
theorem Program.not_execute_append :
    ∃ (p q : List Node) (cp cq : Block) (m₀ m₁ k k' : Machine) (c : Cursor) (v u w : Value)
      (a b : Int64), (ofBody p).code = .ok cp ∧ (ofBody q).code = .ok cq ∧
      (withFuel 10 .standard).dispatch 10 (Machine.new .standard).globals (.ofList cp)
        (.new .standard) =
        .ok (.next c) m₀ ∧
      (withFuel 10 .standard).execute (.ofList cp) (.new .standard) = .ok v m₁ ∧
      (withFuel 10 .standard).execute (.ofList (cp ++ cq)) (.new .standard) = .ok u k ∧
      (withFuel 10 .standard).execute (.ofList cq) m₁ = .ok w k' ∧
      k.heap.kind u = .integer a ∧ k'.heap.kind w = .integer b ∧ a ≠ b := by
  let at' : Span := ⟨some 1⟩
  let p : List Node := [.pass at']
  let q : List Node := [.exit at' [.call at' (.selector at'
    (.lambda at' [] (.integer at' "0")) "Hash") []]]
  have hends : ((ofBody p).code.toOption.any fun cp => (ofBody q).code.toOption.any fun cq =>
      (finished? ((withFuel 10 .standard).dispatch 10 (Machine.new .standard).globals (.ofList cp)
        (.new .standard))).any fun x => x.1.goesOn &&
      (finished? ((withFuel 10 .standard).execute (.ofList cp) (.new .standard))).any fun y =>
      (finished? ((withFuel 10 .standard).execute (.ofList (cp ++ cq)) (.new .standard))).any
        fun whole =>
      (finished? ((withFuel 10 .standard).execute (.ofList cq) y.2)).any fun later =>
      (whole.2.heap.kind whole.1).integer?.any fun a =>
      (later.2.heap.kind later.1).integer?.any fun b => decide (a ≠ b)) = true := by
    decide +kernel
  obtain ⟨cp, hp, hends⟩ := (Option.any_eq_true _ _).1 hends
  obtain ⟨cq, hq, hends⟩ := (Option.any_eq_true _ _).1 hends
  obtain ⟨⟨flow, m₀⟩, hrun, hends⟩ := (Option.any_eq_true _ _).1 hends
  obtain ⟨hflow, hrest⟩ := (Bool.and_eq_true _ _).mp hends
  obtain ⟨⟨v, m₁⟩, hexecute, hrest⟩ := (Option.any_eq_true _ _).1 hrest
  obtain ⟨⟨u, k⟩, hwhole, hrest⟩ := (Option.any_eq_true _ _).1 hrest
  obtain ⟨⟨w, k'⟩, hlater, hrest⟩ := (Option.any_eq_true _ _).1 hrest
  obtain ⟨a, ha, hrest⟩ := (Option.any_eq_true _ _).1 hrest
  obtain ⟨b, hb, hrest⟩ := (Option.any_eq_true _ _).1 hrest
  obtain ⟨c, rfl⟩ := Flow.eq_next_of_goesOn hflow
  exact ⟨p, q, cp, cq, m₀, m₁, k, k', c, v, u, w, a, b, eq_ok_of_toOption hp, eq_ok_of_toOption hq,
    eq_ok_of_finished? hrun, eq_ok_of_finished? hexecute, eq_ok_of_finished? hwhole,
    eq_ok_of_finished? hlater, Kind.eq_of_integer? ha, Kind.eq_of_integer? hb,
    of_decide_eq_true hrest⟩

end ScriptVM
