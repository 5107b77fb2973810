import ScriptVM.Proofs.Code.Locality
import ScriptVM.Proofs.Statement.Keeping

/-!
# Blocks inside longer code

Sound code that stands inside longer code keeps up with the same code run as a block of its own.
-/
namespace ScriptVM

/-- Where longer code goes on after a block of its own has run. -/
def Mode.goal (mode : Mode) (after : Cursor) : Flow → Goal
  | .next _ => .at 0 after
  | .leave v _ => if mode.exits = .never then .nowhere else .left v

section inline

variable {e : Engine} {id : FrameId} {mode : Mode} {labels : Labels} {code : Block} {c d : Cursor}
  {position : Nat} {i : Instruction} {m n : Machine}

/-- What steps at two places do on machines that are the same but for the log. -/
inductive StepPair (mode : Mode) (labels : Labels) (length : Nat) (c d : Cursor) :
    Ending Flow → Ending Flow → Prop
  | next {q : Nat} {m n : Machine} (hq : q ≤ length) (hlabel : labels q ≠ none)
    (hsame : m.SameButLog n) :
    StepPair mode labels length c d (.ok (.next (c.skip q)) m) (.ok (.next (d.skip q)) n)
  | leave {v : Value} {c' d' : Cursor} {m n : Machine} (hmode : mode.exits ≠ .never)
    (hsame : m.SameButLog n) :
    StepPair mode labels length c d (.ok (.leave v c') m) (.ok (.leave v d') n)
  | failed {f : Failure} {m n : Machine} (hsame : m.SameButLog n) :
    StepPair mode labels length c d (.error (.failed f) m) (.error (.failed f) n)
  | gaveUp {why why' : Cutoff} {m n : Machine} :
    StepPair mode labels length c d (.error (.gaveUp why) m) (.error (.gaveUp why') n)

theorem stepPair_of_sameSteps {length : Nat} {x y : Run Flow}
    (h : SameSteps mode labels length d c y x) (hx : x.Quiet) (hmn : m.SameButLog n) :
    StepPair mode labels length c d (x m) (y n) := by
  have hy := h n
  have hquiet := hx m n hmn
  generalize y n = s at hy ⊢
  generalize x n = t at hy hquiet
  generalize x m = r at hquiet ⊢
  cases hquiet with
  | ok flow hmn' =>
    cases hy with
    | ok hflow n' =>
      cases hflow with
      | next q hq hlabel => exact .next hq hlabel hmn'
      | leave hmode v => exact .leave hmode hmn'
  | failed f hmn' =>
    cases hy
    exact .failed hmn'
  | gaveUp why why' m' n' =>
    cases hy
    exact .gaveUp

variable (he : e.IsQuiet) (hfit : labels.Fit mode code.length 0 code) (hc : c.Stands code)
  (hd : d.Stands code)
include he hfit hc hd

/-- A step of code inside longer code and the step of the same code run on its own. -/
theorem Labels.Fit.stepPair (id : FrameId) (hi : code[position]? = some i)
    (hlabel : labels position ≠ none)
    (hmn : m.SameButLog n) :
    StepPair mode labels code.length c d
      (e.step id (c.skip (position + 1)) i.op (m.traced (c.skip position).index i))
      (e.step id (d.skip (position + 1)) i.op (n.traced (d.skip position).index i)) := by
  refine stepPair_of_sameSteps (hfit.sameSteps hd hc hi hlabel e id) (he.step id _ i.op) ?_
  exact ((m.sameButLog_traced _ i).trans hmn).trans (n.sameButLog_traced _ i).symm

variable (hend : (d.skip code.length).next? = none)
include hend

theorem Labels.Fit.reaches (k : Nat) : ∀ {position : Nat} {m n : Machine},
    position ≤ code.length → labels position ≠ none → m.SameButLog n →
    e.Reaches id (c.skip position) m (mode.goal (c.skip code.length))
      (e.dispatch k id (d.skip position) n) := by
  induction k with
  | zero => exact fun _ _ _ => trivial
  | succ k ih =>
    intro position m n hp hlabel hmn
    rcases Nat.lt_or_eq_of_le hp with hp | rfl
    · have hi := List.getElem?_eq_getElem hp
      have hpair := hfit.stepPair he hc hd id hi hlabel hmn
      rw [Engine.dispatch_next (hd.next? hi)]
      simp only [Run.located]
      generalize hx : e.step id (c.skip (position + 1)) _ _ = x at hpair
      generalize hy : e.step id (d.skip (position + 1)) _ _ = y at hpair ⊢
      cases hpair with
      | next hq hlabel hsame =>
        exact (Engine.leadsIn_of_step (hc.next? hi) hx).reaches (ih hq hlabel hsame)
      | leave hmode hsame =>
        simp only [Engine.Reaches, Mode.goal, if_neg hmode]
        exact ⟨_, _, Engine.ends_of_leave (hc.next? hi) hx, hsame⟩
      | failed hsame => exact ⟨_, Engine.ends_of_failure (hc.next? hi) hx, hsame⟩
      | gaveUp => trivial
    · rw [Engine.dispatch_end hend]
      exact ⟨m, Engine.Leads.refl.leadsIn, hmn⟩

theorem Labels.Fit.starves (steps : Nat) : ∀ {position : Nat} {m n : Machine},
    position ≤ code.length → labels position ≠ none → m.SameButLog n →
    e.Starves id (d.skip position) n → hasEnded (e.dispatch steps id (c.skip position) m) = false := by
  induction steps with
  | zero => exact fun _ _ _ _ => rfl
  | succ steps ih =>
    intro position m n hp hlabel hmn hdiverges
    rcases Nat.lt_or_eq_of_le hp with hp | rfl
    · have hi := List.getElem?_eq_getElem hp
      have hpair := hfit.stepPair he hc hd id hi hlabel hmn
      rw [Engine.dispatch_next (hc.next? hi)]
      simp only [Run.located]
      generalize hx : e.step id (c.skip (position + 1)) _ _ = x at hpair ⊢
      generalize hy : e.step id (d.skip (position + 1)) _ _ = y at hpair
      have hnext (k : Nat) : e.dispatch (k + 1) id (d.skip position) n = _ :=
        Engine.dispatch_next (hd.next? hi) k
      simp only [Run.located, hy] at hnext
      cases hpair with
      | next hq hlabel hsame =>
        refine ih hq hlabel hsame fun k => ?_
        exact (congrArg hasEnded (hnext k)).symm.trans (hdiverges (k + 1))
      | leave hmode hsame => exact absurd (hdiverges 1) (by simp [hnext, hasEnded])
      | failed hsame => exact absurd (hdiverges 1) (by simp [hnext, hasEnded])
      | gaveUp => rfl
    · have hfalse := hdiverges 1
      rw [Engine.dispatch_end hend] at hfalse
      cases hfalse

end inline

/-- Sound code inside longer code keeps up with the same code run as a block of its own. -/
theorem Sound.keeps {e : Engine} {mode : Mode} {entry stop : Nat} {code : Block} {c : Cursor}
    (h : Sound mode entry code stop) (he : e.IsQuiet) (id : FrameId) (hc : c.Stands code) :
    e.Keeps id c (mode.goal (c.skip code.length)) fun k => e.dispatch k id (Cursor.ofList code) := by
  obtain ⟨⟨labels, hstart, -, hfit⟩, -⟩ := Sound.iff_labels.1 h
  have hfits : code.length ≤ Text.maxCount :=
    Nat.le_trans (Nat.le_trans (Nat.le_add_left _ _) hc.inside) hc.fits
  have hd := Cursor.stands_ofList hfits
  have hlabel : labels 0 ≠ none := by
    rw [hstart]
    exact nofun
  have hend : ((Cursor.ofList code).skip code.length).next? = none := by
    rw [Cursor.next?_eq_none_iff]
    simp [Cursor.ofList, Cursor.ofView]
  constructor
  · exact fun k m n hmn => hfit.reaches he hc hd hend k (Nat.zero_le _) hlabel hmn
  · exact fun m n hmn hdiverges steps =>
      hfit.starves he hc hd hend steps (Nat.zero_le _) hlabel hmn hdiverges

end ScriptVM
