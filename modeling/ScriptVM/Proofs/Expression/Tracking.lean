import ScriptVM.Proofs.Code.Course
import ScriptVM.Proofs.Sparing

/-!
# Code that tracks a computation

Code that runs in the spared frame moves its operands about while it does what a direct computation
does without them. The two machines are twins all the time: the same but for the operands of that
frame. Steps track computations, and code computes what a computation gives, when both end in the
same way, lack of fuel included.
-/
namespace ScriptVM

open Run

/-- Machines that are the same but for the operands of a frame and the log. -/
abbrev Twins (id : FrameId) (w : CallStack) (right left : Aside) (m n : Machine) : Prop :=
  (Likeness.sparing (some id) left right).Alike w m n

section tracking

variable {id : FrameId} {w : CallStack} {right left : Aside} {m n : Machine} {α β γ δ : Type}

theorem Twins.symm (h : Twins id w right left m n) : Twins id w left right n m := by
  obtain ⟨hmn, hcalls, hm, hn⟩ := h.rest
  refine Likeness.alike_sparing hmn.symm ?_ hn hm
  have hforget : (n.forget (some id)).callStack = (m.forget (some id)).callStack := by rw [hmn]
  exact hforget.trans hcalls

/-- The frame in the machine that runs code. -/
theorem Twins.frame (h : Twins id w right left m n) :
    ∃ f, m.arena.get? id = some f ∧ 0 < f.active ∧ f.stack = left.stack ∧ f.last = left.last :=
  h.rest.2.2.1 id rfl

/-- Changes of the operands of the frame. -/
theorem Twins.set (h : Twins id w right left m n) {left' : Aside} {g : Frame → Frame}
    (hforget : ∀ f, (g f).forget = f.forget)
    (hg : ∀ f, f.stack = left.stack → f.last = left.last →
      (g f).active = f.active ∧ (g f).stack = left'.stack ∧ (g f).last = left'.last) :
    Twins id w right left' (m.modifyFrame id g) n := by
  obtain ⟨f, hf, hactive, hstack, hlast⟩ := h.frame
  obtain ⟨hmn, hcalls, -, hn⟩ := h.rest
  refine Likeness.alike_sparing ?_ hcalls ?_ hn
  · rw [hmn]
    have harena : (m.arena.modify id g).forget (some id) = m.arena.forget (some id) := by
      refine Arena.ext_get? rfl rfl (by simp) fun other => ?_
      rw [Arena.get?_forget, Arena.get?_forget, Arena.get?_modify]
      by_cases hid : other = id
      · subst hid
        simp only [if_true, Option.map_map]
        congr 1
        funext f
        exact hforget f
      · rw [if_neg hid]
    exact congrArg (fun a => { m with arena := a, log := [] }) harena.symm
  · rintro other ⟨⟩
    obtain ⟨ha, hs, hl⟩ := hg f hstack hlast
    exact ⟨g f, by rw [Machine.modifyFrame, Arena.get?_modify_self, hf, Option.map_some],
      by omega, hs, hl⟩

theorem Twins.traced (h : Twins id w right left m n) (position : Nat) (i : Instruction) :
    Twins id w right left (m.traced position i) n := by
  obtain ⟨hmn, hcalls, hm, hn⟩ := h.rest
  unfold Machine.traced
  split
  · exact Likeness.alike_sparing hmn hcalls hm hn
  · exact h

/-! ## Steps -/

/-- Ends of two computations that track each other. -/
def TracksEnd (id : FrameId) (w : CallStack) (right : Aside) (Q : β → α → Aside → Prop) :
    Ending β → Ending α → Prop
  | .ok b m, .ok a n => ∃ left, Q b a left ∧ Twins id w right left m n
  | .error (.gaveUp _) _, .error (.gaveUp _) _ => True
  | .error (.failed f) m, .error (.failed g) n => g = f ∧ ∃ left, Twins id w right left m n
  | _, _ => False

/-- A computation that moves operands about tracks one that does not. -/
def Tracks (id : FrameId) (w : CallStack) (right left : Aside) (X : Run β) (x : Run α)
    (Q : β → α → Aside → Prop) : Prop :=
  ∀ m n, Twins id w right left m n → TracksEnd id w right Q (X m) (x n)

theorem Tracks.pure {Q : β → α → Aside → Prop} {b : β} {a : α} (h : Q b a left) :
    Tracks id w right left (pure b) (pure a) Q :=
  fun _ _ hmn => ⟨left, h, hmn⟩

theorem Tracks.fail {Q : β → α → Aside → Prop} {cause : Cause} :
    Tracks id w right left (Run.fail cause) (Run.fail cause) Q :=
  fun _ _ hmn => ⟨rfl, left, hmn⟩

theorem Tracks.bind {X : Run β} {x : Run α} {K : β → Run δ} {k : α → Run γ}
    {Q : β → α → Aside → Prop} {R : δ → γ → Aside → Prop} (h : Tracks id w right left X x Q)
    (hk : ∀ b a left', Q b a left' → Tracks id w right left' (K b) (k a) R) :
    Tracks id w right left (X >>= K) (x >>= k) R := by
  intro m n hmn
  have hX := h m n hmn
  simp only [Bind.bind, EStateM.bind]
  generalize X m = r at hX
  generalize x n = s at hX
  match r, s, hX with
  | .ok b m', .ok a n', ⟨left', hQ, hmn'⟩ => exact hk b a left' hQ m' n' hmn'
  | .error (.gaveUp _) _, .error (.gaveUp _) _, _ => trivial
  | .error (.failed _) _, .error (.failed _) _, hX => exact hX

theorem Tracks.mono {X : Run β} {x : Run α} {Q R : β → α → Aside → Prop}
    (h : Tracks id w right left X x Q) (hQ : ∀ b a left', Q b a left' → R b a left') :
    Tracks id w right left X x R := by
  intro m n hmn
  have hX := h m n hmn
  generalize X m = r at hX
  generalize x n = s at hX
  match r, s, hX with
  | .ok _ _, .ok _ _, ⟨left', hq, hmn'⟩ => exact ⟨left', hQ _ _ _ hq, hmn'⟩
  | .error (.gaveUp _) _, .error (.gaveUp _) _, _ => trivial
  | .error (.failed _) _, .error (.failed _) _, hX => exact hX

/-- Work on the operands that the other computation knows nothing of. -/
theorem Tracks.work {X : Run β} {b : β} {left' : Aside} {K : β → Run δ} {x : Run α}
    {R : δ → α → Aside → Prop}
    (h : ∀ m n, Twins id w right left m n → ∃ m', X m = .ok b m' ∧ Twins id w right left' m' n)
    (hk : Tracks id w right left' (K b) x R) : Tracks id w right left (X >>= K) x R := by
  intro m n hmn
  obtain ⟨m', hX, hmn'⟩ := h m n hmn
  simp only [Bind.bind, EStateM.bind, hX]
  exact hk m' n hmn'

/-- What agrees with itself on twins, whichever one is looked at first, tracks itself. -/
theorem Tracks.of_agree {x : Run α} {p : Aside → Aside → CallStack → α → Prop}
    (h : ∀ left right, (Likeness.sparing (some id) left right).Agree w x x (p left right)) :
    Tracks id w right left x x fun b a left' => b = a ∧ left' = left := by
  intro m n hmn
  have hforth := h left right m n hmn
  have hback := h right left n m hmn.symm
  generalize x m = r at hforth hback
  generalize x n = s at hforth hback
  match r, s, hforth, hback with
  | .ok b m', .ok a n', ⟨hab, _, hw, _, hmn'⟩, _ =>
    cases hw
    exact ⟨left, ⟨hab.symm, rfl⟩, hmn'⟩
  | .error (.gaveUp _) _, .error (.gaveUp _) _, _, _ => trivial
  | .error (.failed f) m', .error (.failed g) n', ⟨hfg, _, _, hw, hmn'⟩, _ =>
    cases hw
    exact ⟨hfg, left, hmn'⟩

/-- A computation that agrees with itself, followed by more. -/
theorem Tracks.then {x : Run α} {p : Aside → Aside → CallStack → α → Prop} {K : α → Run δ}
    {k : α → Run γ} {R : δ → γ → Aside → Prop}
    (h : ∀ left right, (Likeness.sparing (some id) left right).Agree w x x (p left right))
    (hk : ∀ a, Tracks id w right left (K a) (k a) R) :
    Tracks id w right left (x >>= K) (x >>= k) R := by
  refine (Tracks.of_agree h).bind fun b a left' hab => ?_
  obtain ⟨rfl, rfl⟩ := hab
  exact hk b

/-- A computation that agrees with itself, followed by work on the operands. -/
theorem Tracks.self {x : Run α} {p : Aside → Aside → CallStack → α → Prop} {K : α → Run δ}
    {R : δ → α → Aside → Prop}
    (h : ∀ left right, (Likeness.sparing (some id) left right).Agree w x x (p left right))
    (hk : ∀ a, Tracks id w right left (K a) (Pure.pure a : Run α) R) :
    Tracks id w right left (x >>= K) x R := by
  have hpure := Tracks.then (k := Pure.pure) h hk
  rwa [bind_pure] at hpure

/-! ### Operands -/

theorem Tracks.pop {v : Value} {rest : List Value} {last : Option Value} {K : Value → Run δ}
    {x : Run α} {R : δ → α → Aside → Prop} (h : Tracks id w right ⟨rest, last⟩ (K v) x R) :
    Tracks id w right ⟨v :: rest, last⟩ (Run.pop id >>= K) x R := by
  refine Tracks.work (fun m n hmn => ?_) h
  obtain ⟨f, hf, -, hstack, hlast⟩ := hmn.frame
  refine ⟨_, Run.pop_of_cons hf hstack, hmn.set (fun _ => rfl) fun g _ hl => ⟨rfl, rfl, hl⟩⟩

theorem Tracks.popMany {vs rest : List Value} {last : Option Value} {count : Nat}
    (hcount : vs.length = count) {K : List Value → Run δ} {x : Run α} {R : δ → α → Aside → Prop}
    (h : Tracks id w right ⟨rest, last⟩ (K vs) x R) :
    Tracks id w right ⟨vs ++ rest, last⟩ (Run.popMany id count >>= K) x R := by
  subst hcount
  refine Tracks.work (fun m n hmn => ?_) h
  obtain ⟨f, hf, -, hstack, hlast⟩ := hmn.frame
  have hle : vs.length ≤ f.stack.length := by simp [hstack]
  have htake : f.stack.take vs.length = vs := by simp [hstack]
  have hdrop : f.stack.drop vs.length = rest := by simp [hstack]
  refine ⟨m.modifyFrame id fun g => { g with stack := f.stack.drop vs.length }, ?_, ?_⟩
  · rw [Run.popMany_of_le hf hle, htake]
  · exact hmn.set (fun _ => rfl) fun g _ hl => ⟨rfl, hdrop, hl⟩

theorem Tracks.push {v : Value} {K : Unit → Run δ} {x : Run α} {R : δ → α → Aside → Prop}
    (h : Tracks id w right ⟨v :: left.stack, left.last⟩ (K ()) x R) :
    Tracks id w right left (Run.push id v >>= K) x R := by
  refine Tracks.work (fun m n hmn => ?_) h
  obtain ⟨f, hf, -, -, -⟩ := hmn.frame
  refine ⟨_, Run.modifyFrame_of_live hf _, hmn.set (fun _ => rfl) fun g hs hl => ⟨rfl, ?_, hl⟩⟩
  exact congrArg (v :: ·) hs

theorem Tracks.setLast {v : Value} {K : Unit → Run δ} {x : Run α} {R : δ → α → Aside → Prop}
    (h : Tracks id w right ⟨left.stack, some v⟩ (K ()) x R) :
    Tracks id w right left (Run.setLast id v >>= K) x R := by
  refine Tracks.work (fun m n hmn => ?_) h
  obtain ⟨f, hf, -, -, -⟩ := hmn.frame
  exact ⟨_, Run.modifyFrame_of_live hf _, hmn.set (fun _ => rfl) fun g hs _ => ⟨rfl, hs, rfl⟩⟩

theorem Tracks.last {K : Option Value → Run δ} {x : Run α} {R : δ → α → Aside → Prop}
    (h : Tracks id w right left (K left.last) x R) :
    Tracks id w right left (Run.last id >>= K) x R := by
  refine Tracks.work (fun m n hmn => ?_) h
  obtain ⟨f, hf, -, -, hlast⟩ := hmn.frame
  exact ⟨m, by rw [Run.last_of_live hf, hlast], hmn⟩

/-! ## Code -/

variable {e : Engine} {c c₁ c₂ : Cursor} {i : Instruction} {after : Cursor}

/-- Code under a cursor computes what a computation gives. -/
def Computes (e : Engine) (id : FrameId) (w : CallStack) (right : Aside) (c : Cursor)
    (left : Aside) (x : Run α) (Q : α → Cursor → Aside → Prop) : Prop :=
  ∀ m n, Twins id w right left m n →
    match x n with
    | .ok a n' =>
      ∃ c' m' left', e.Leads id c m c' m' ∧ Q a c' left' ∧ Twins id w right left' m' n'
    | .error (.gaveUp _) _ => e.Starves id c m
    | .error (.failed f) n' =>
      ∃ m' left', e.Ends id c m (.error (.failed f) m') ∧ Twins id w right left' m' n'

theorem Computes.pure {Q : α → Cursor → Aside → Prop} {a : α} (h : Q a c left) :
    Computes e id w right c left (pure a) Q :=
  fun m _ hmn => ⟨c, m, left, .refl, h, hmn⟩

theorem Computes.bind {x : Run α} {k : α → Run γ} {Q : α → Cursor → Aside → Prop}
    {R : γ → Cursor → Aside → Prop} (h : Computes e id w right c left x Q)
    (hk : ∀ a c' left', Q a c' left' → Computes e id w right c' left' (k a) R) :
    Computes e id w right c left (x >>= k) R := by
  intro m n hmn
  have hx := h m n hmn
  simp only [Bind.bind, EStateM.bind]
  generalize x n = r at hx
  match r, hx with
  | .ok a n', ⟨c', m', left', hleads, hQ, hmn'⟩ =>
    have hrest := hk a c' left' hQ m' n' hmn'
    dsimp only
    generalize k a n' = s at hrest
    match s, hrest with
    | .ok b n'', ⟨c'', m'', left'', hleads', hR, hmn''⟩ =>
      exact ⟨c'', m'', left'', hleads.trans hleads', hR, hmn''⟩
    | .error (.gaveUp _) _, hstarves => exact hleads.starves hstarves
    | .error (.failed f) n'', ⟨m'', left'', hends, hmn''⟩ =>
      exact ⟨m'', left'', hleads.ends hends, hmn''⟩
  | .error (.gaveUp _) _, hstarves => exact hstarves
  | .error (.failed f) n', hends => exact hends

/-- More code that only moves operands about. -/
theorem Computes.andThen {x : Run α} {Q R : α → Cursor → Aside → Prop}
    (h : Computes e id w right c left x Q)
    (hk : ∀ a c' left', Q a c' left' → Computes e id w right c' left' (Pure.pure a) R) :
    Computes e id w right c left x R := by
  have hbind := h.bind hk
  rwa [bind_pure] at hbind

/-- An instruction computes what its step tracks. -/
theorem Computes.step {x : Run α} {Q : α → Cursor → Aside → Prop}
    (hnext : c.next? = some (i, after))
    (h : Tracks id w right left (e.step id after i.op) x fun flow a left' =>
      ∃ c', flow = .next c' ∧ Q a c' left') :
    Computes e id w right c left (Run.located i.span x) Q := by
  intro m n hmn
  have hx := h _ n (hmn.traced c.index i)
  unfold Run.located
  cases hstep : e.step id after i.op (m.traced c.index i) with
  | ok flow m' =>
    rw [hstep] at hx
    generalize x n = s at hx
    match s, hx with
    | .ok a n', ⟨left', ⟨c', hflow, hQ⟩, hmn'⟩ =>
      subst hflow
      exact ⟨c', m', left', Engine.leads_of_step hnext hstep, hQ, hmn'⟩
  | error stop m' =>
    rw [hstep] at hx
    generalize x n = s at hx
    match stop, hstep, s, hx with
    | .gaveUp _, hstep, .error (.gaveUp _) _, _ => exact Engine.starves_of_step hnext hstep
    | .failed f, hstep, .error (.failed g) n', ⟨hfg, left', hmn'⟩ =>
      cases hfg
      exact ⟨m', left', Engine.ends_of_failure hnext hstep, hmn'⟩

/-- An instruction that only moves operands about. -/
theorem Computes.move {a : α} {Q : α → Cursor → Aside → Prop} (hnext : c.next? = some (i, after))
    (h : Tracks id w right left (e.step id after i.op) (Pure.pure a : Run α) fun flow a left' =>
      ∃ c', flow = .next c' ∧ Q a c' left') :
    Computes e id w right c left (Pure.pure a) Q :=
  Computes.step hnext h

end tracking
end ScriptVM
