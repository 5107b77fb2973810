import ScriptVM.Proofs.Statement.Correct

/-!
# Lowering of statements

The code of a block against its structured execution, on the ordinary machine. Whenever one of the
two comes to an end, so does the other one, in the same way.
-/
namespace ScriptVM

/-- The end of a structured execution and the end of code: behind the last instruction, with the
same value or with the same failure, on machines that are the same but for the log. -/
def SameOutcome (code : Block) : Ending Signal → Ending Flow → Prop
  | .ok .normal n, .ok (.next c) m =>
    c = (Cursor.ofList code).skip code.length ∧ m.SameButLog n
  | .ok (.left v) n, .ok (.leave v' _) m => v' = v ∧ m.SameButLog n
  | .error (.failed f) n, .error (.failed g) m => g = f ∧ m.SameButLog n
  | _, _ => False

section lowering

variable {e : Engine} {id : FrameId} {code : Block} {x : Nat → Run Signal} {k : Nat}
  {m n : Machine} {s : Surroundings} {block : List Node} {digests : Digests}

/-- Code that leads to any place leads to none. -/
theorem Engine.not_leadsIn_everywhere {c : Cursor} {least : Nat}
    (h : ∀ d, ∃ m', e.LeadsIn id least c m d m') : False := by
  obtain ⟨m₁, used₁, -, h₁⟩ := h (Cursor.ofList [])
  obtain ⟨m₂, used₂, -, h₂⟩ := h (Cursor.ofList [Op.breakMark.at .unknown])
  have hends : e.dispatch (used₂ + 1 + used₁) id c m = .ok (.next (Cursor.ofList [])) m₁ := by
    rw [h₁]
    exact dispatch_end rfl used₂
  have hfails : e.dispatch (used₁ + 1 + used₂) id c m = _ :=
    (h₂ _).trans (dispatch_next rfl used₁)
  have hsteps : used₂ + 1 + used₁ = used₁ + 1 + used₂ := by omega
  rw [← hsteps, hends] at hfails
  cases hfails

/-- Code without marks goes on in the same way whatever loops are around it, so its execution never
asks for the control of a loop. -/
theorem Engine.Faithful.settled (h : e.Faithful id code x) (hfits : code.length ≤ Text.maxCount)
    (hunmarked : ∀ i ∈ code, i.op.isLoopMark = false) {signal : Signal}
    (hx : x k m = .ok signal n) : signal = .normal ∨ ∃ v, signal = .left v := by
  have hr : ∀ d, e.Reaches id (Cursor.ofList code) m
      (Signal.goal ((Cursor.ofList code).skip code.length) ⟨d, d, d⟩) (.ok signal n) := by
    intro d
    rw [← hx]
    exact (h.keeps ((Cursor.stands_ofList hfits).holds hunmarked _)).reaches k m m (.refl m)
  have hnone : (∀ d, ∃ m', e.LeadsIn id 1 (Cursor.ofList code) m d m' ∧ m'.SameButLog n) → False :=
    fun hleads => not_leadsIn_everywhere fun d => ⟨_, (hleads d).choose_spec.1⟩
  cases signal with
  | normal => exact .inl rfl
  | left v => exact .inr ⟨v, rfl⟩
  | broke => exact (hnone hr).elim
  | continued => exact (hnone hr).elim
  | redid => exact (hnone hr).elim

/-- Execution and code that keeps up with it end in the same way. -/
theorem Engine.Faithful.sameOutcome (h : e.Faithful id code x)
    (hfits : code.length ≤ Text.maxCount) (hunmarked : ∀ i ∈ code, i.op.isLoopMark = false)
    (hended : hasEnded (x k m) = true) :
    ∃ r, e.Ends id (Cursor.ofList code) m r ∧ SameOutcome code (x k m) r := by
  let nowhere : LoopTargets := ⟨.ofList [], .ofList [], .ofList []⟩
  have hr := (h.keeps ((Cursor.stands_ofList hfits).holds hunmarked nowhere)).reaches k m m
    (.refl m)
  have hend : ((Cursor.ofList code).skip code.length).next? = none := by
    rw [Cursor.next?_eq_none_iff]
    simp [Cursor.ofList, Cursor.ofView]
  cases hx : x k m with
  | ok signal n =>
    rw [hx] at hr
    rcases h.settled hfits hunmarked hx with rfl | ⟨v, rfl⟩
    · obtain ⟨m', hleads, hsame⟩ := hr
      exact ⟨_, hleads.leads.ends (ends_of_end hend), rfl, hsame⟩
    · obtain ⟨c', m', hends, hsame⟩ := hr
      exact ⟨_, hends, rfl, hsame⟩
  | error stop n =>
    rw [hx] at hr hended
    cases stop with
    | gaveUp => cases hended
    | failed f =>
      obtain ⟨m', hends, hsame⟩ := hr
      exact ⟨_, hends, rfl, hsame⟩

/-- Let a block that no loop is around have code. In every frame and from every state, when its
structured execution comes to an end, its code comes to the same end from its first instruction on;
and when its code comes to an end, its structured execution comes to the same end. -/
theorem blockCode_lowering (hs : s.inLoop = false) (hcode : blockCode s block = .ok code)
    (hfits : code.length ≤ Text.maxCount) (fuel : Nat) (id : FrameId) (m : Machine) :
    (∀ k, hasEnded (execBlock (.withFuel fuel digests) k id s block m) = true →
      ∃ steps, SameOutcome code (execBlock (.withFuel fuel digests) k id s block m)
        ((Engine.withFuel fuel digests).dispatch steps id (Cursor.ofList code) m)) ∧
    ∀ steps, hasEnded ((Engine.withFuel fuel digests).dispatch steps id (Cursor.ofList code) m) = true →
      ∃ k, SameOutcome code (execBlock (.withFuel fuel digests) k id s block m)
        ((Engine.withFuel fuel digests).dispatch steps id (Cursor.ofList code) m) := by
  have h : (Engine.withFuel fuel digests).Faithful id code _ :=
    execBlock_faithful (Engine.isQuiet_withFuel digests fuel) block hcode
  have hsuit : s.Suit ⟨1, .anywhere, false⟩ :=
    ⟨rfl, by simp [hs], fun _ => Nat.le_refl 1⟩
  have hunmarked := (blockCode_sound block hsuit hcode).unmarked rfl
  constructor
  · intro k hended
    obtain ⟨r, ⟨used, hused⟩, hsame⟩ := h.sameOutcome hfits hunmarked hended
    exact ⟨0 + used, by rwa [hused]⟩
  · intro steps hended
    rcases h.grows.ends_or_not m with ⟨k, hk, -⟩ | hnone
    · obtain ⟨r, hends, hsame⟩ := h.sameOutcome hfits hunmarked hk
      exact ⟨k, by rwa [hends.eq_of_dispatch hended]⟩
    · let nowhere : LoopTargets := ⟨.ofList [], .ofList [], .ofList []⟩
      have hkeeps := h.keeps ((Cursor.stands_ofList hfits).holds hunmarked nowhere)
      have hstarves := hkeeps.starves m m (.refl m) hnone steps
      rw [hended] at hstarves
      cases hstarves

/-- In the global frame of a new machine, `while True { break }` is left by its break. -/
theorem blockCode_lowering_break :
    let block : List Node := [.loop ⟨some 1⟩ false (.bool ⟨some 1⟩ true) [.breakLoop ⟨some 2⟩]]
    let code := [Op.getTrue.at ⟨some 1⟩, Op.push.at ⟨some 1⟩, (Op.ifJump 2).at ⟨some 1⟩,
      (Op.jump 1).at ⟨some 2⟩, (Op.jumpBack 5).at ⟨some 1⟩]
    ∃ steps, SameOutcome code (execBlock (.withFuel 1 .standard) 5 ⟨0⟩ .inFunction block (.new default))
      ((Engine.withFuel 1 .standard).dispatch steps ⟨0⟩ (Cursor.ofList code) (.new default)) := by
  intro block code
  have hcode : blockCode .inFunction block = .ok code := rfl
  exact (blockCode_lowering rfl hcode (by decide) 1 ⟨0⟩ (.new default)).1 5 (by decide +kernel)

end lowering
end ScriptVM
