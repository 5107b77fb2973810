import ScriptVM.Proofs.Frame.Effect
import ScriptVM.Proofs.Likeness.Objects

/-!
# Machines with the same frames

Where machines that are alike have the very same frames, and nothing is asked of values and failures,
a computation on a frame agrees with itself as soon as its change of the frame keeps machines alike.
Computations that only look at a frame always agree.
-/
namespace ScriptVM.Likeness

variable {L : Likeness} {w w' : L.World} {id : FrameId} {α : Type} {p : L.World → α → Prop}

/-- Machines that are alike have the same frames, whatever values they hold and however they fail. -/
structure SharesFrames (L : Likeness) : Prop where
  arena : ∀ {w m n}, L.Alike w m n → n.arena = m.arena
  good : ∀ v, L.good v
  admits : ∀ c, L.admits c

/-- Machines stay alike when a frame is changed. -/
def Allows (L : Likeness) (w : L.World) (id : FrameId) (change : Frame → Frame) : Prop :=
  ∀ m n, L.Alike w m n → L.Alike w (m.modifyFrame id change) (n.modifyFrame id change)

namespace SharesFrames

variable (S : L.SharesFrames)

include S

/-- A computation that looks for a frame first. -/
theorem missing {x : Run α}
    (hdead : ∀ k : Machine, k.arena.get? id = none → x k = .error (Run.missing id) k)
    (hlive : ∀ m n f, L.Alike w m n → m.arena.get? id = some f → n.arena.get? id = some f →
      L.Matches w p (x m) (x n)) : L.Agree w x x p := by
  intro m n h
  have harena := S.arena h
  cases hf : m.arena.get? id with
  | none =>
    rw [hdead m hf, hdead n (harena ▸ hf)]
    exact ⟨rfl, S.admits _, w, L.refl w, h⟩
  | some f => exact hlive m n f h hf (harena ▸ hf)

theorem modifyFrame {change : Frame → Frame} (hchange : L.Allows w id change) :
    L.Agree w (Run.modifyFrame id change) (Run.modifyFrame id change) fun _ _ => True := by
  refine S.missing (fun _ hk => Run.modifyFrame_of_dead hk change) fun m n f h hm hn => ?_
  rw [Run.modifyFrame_of_live hm, Run.modifyFrame_of_live hn]
  exact ⟨rfl, w, L.refl w, trivial, hchange m n h⟩

theorem pop (hchange : ∀ stack, L.Allows w id fun f => { f with stack := stack }) :
    L.Agree w (Run.pop id) (Run.pop id) fun _ _ => True := by
  refine S.missing (fun _ hk => Run.frame_bind_of_dead hk _) fun m n f h hm hn => ?_
  cases hs : f.stack with
  | nil =>
    rw [Run.pop_of_nil hm hs, Run.pop_of_nil hn hs]
    exact ⟨rfl, S.admits _, w, L.refl w, h⟩
  | cons v rest =>
    rw [Run.pop_of_cons hm hs, Run.pop_of_cons hn hs]
    exact ⟨rfl, w, L.refl w, trivial, hchange rest m n h⟩

theorem popMany (hchange : ∀ stack, L.Allows w id fun f => { f with stack := stack })
    (count : Nat) : L.Agree w (Run.popMany id count) (Run.popMany id count) fun _ _ => True := by
  refine S.missing (fun _ hk => Run.frame_bind_of_dead hk _) fun m n f h hm hn => ?_
  rcases Nat.lt_or_ge f.stack.length count with hlt | hle
  · rw [Run.popMany_of_lt hm hlt, Run.popMany_of_lt hn hlt]
    exact ⟨rfl, S.admits _, w, L.refl w, h⟩
  · rw [Run.popMany_of_le hm hle, Run.popMany_of_le hn hle]
    exact ⟨rfl, w, L.refl w, trivial, hchange _ m n h⟩

theorem top : L.Agree w (Run.top id) (Run.top id) fun _ _ => True := by
  refine S.missing (fun _ hk => Run.frame_bind_of_dead hk _) fun m n f h hm hn => ?_
  cases hs : f.stack with
  | nil =>
    rw [Run.top_of_nil hm hs, Run.top_of_nil hn hs]
    exact ⟨rfl, S.admits _, w, L.refl w, h⟩
  | cons v rest =>
    rw [Run.top_of_cons hm hs, Run.top_of_cons hn hs]
    exact ⟨rfl, w, L.refl w, trivial, h⟩

theorem last : L.Agree w (Run.last id) (Run.last id) fun _ _ => True := by
  refine S.missing (fun _ hk => Run.frame_bind_of_dead hk _) fun m n f h hm hn => ?_
  rw [Run.last_of_live hm, Run.last_of_live hn]
  exact ⟨rfl, w, L.refl w, trivial, h⟩

theorem methodScope : L.Agree w (Run.methodScope id) (Run.methodScope id) fun _ _ => True := by
  refine S.missing (fun _ hk => Run.frame_bind_of_dead hk _) fun m n f h hm hn => ?_
  rw [Run.methodScope_of_live hm, Run.methodScope_of_live hn]
  exact ⟨rfl, w, L.refl w, trivial, h⟩

/-- An assignment binds a name in the frame, or gives a member to its object. -/
theorem assign {name : String} {v : Value} (hchange : L.Allows w id fun f => f.define name v) :
    L.Agree w (Run.assign id name v) (Run.assign id name v) fun _ _ => True := by
  refine S.missing (fun _ hk => Run.assign_of_dead hk name v) fun m n f h hm hn => ?_
  rw [Run.assign_of_live hm, Run.assign_of_live hn]
  refine ⟨rfl, w, L.refl w, trivial, ?_⟩
  simp only [Arena.assign, hm, hn, h.heap]
  cases (some f).bind fun f => if f.bindsObject = true then f.object else none with
  | none =>
    have hdefined := hchange m n h
    have hheap := h.heap
    cases n
    cases hheap
    exact hdefined
  | some object =>
    have hset := h.modify object (.refl _) fun _ ho => ho.setMember name (m := .value v) (S.good v)
    exact hset

theorem resolve (name : String) :
    L.Agree w (Run.resolve id name) (Run.resolve id name) fun _ _ => True := by
  intro m n h
  simp only [Run.resolve, Run.modifyGet_apply, S.arena h, h.heap]
  cases hfound : m.arena.lookup? m.heap id name with
  | none => exact ⟨rfl, w, L.refl w, trivial, h⟩
  | some found =>
    refine ⟨rfl, w, L.refl w, trivial, ?_⟩
    obtain ⟨f, -, hf⟩ := List.exists_of_findSome?_eq_some hfound
    have hresolved := (h.resolve? (fun u _ => S.good u) (fun u _ => S.good u) hf).2
    rw [S.arena h] at hresolved
    exact hresolved

theorem retain (hchange : L.Allows w id fun f => { f with holders := f.holders + 1 }) :
    L.Agree w (Run.retain id) (Run.retain id) fun _ r => r = id := by
  refine S.missing (fun _ hk => Run.retain_of_dead hk) fun m n f h hm hn => ?_
  rw [Run.retain_of_live hm, Run.retain_of_live hn]
  exact ⟨rfl, w, L.refl w, rfl, hchange m n h⟩

end SharesFrames

/-- What a machine holds on to does not matter where machines are compared with themselves. -/
theorem Agree.keep_of_eq {e : Engine} {x y : Run α} (h : L.Agree w x y p)
    (heq : ∀ {w m n}, L.Alike w m n → n = m)
    (hheld : ∀ {w m} (held : List Reference), L.Alike w m m →
      L.Alike w { m with held := held } { m with held := held }) (refs : List Reference) :
    L.Agree w (e.keep refs x) (e.keep refs y) p := by
  intro m n hmn
  cases heq hmn
  cases ht : e.tracks with
  | true =>
    simp only [Engine.keep, Run.holding, ht, if_true]
    refine (h _ _ (hheld (refs ++ m.held) hmn)).byEnds (fun _ _ _ => trivial) ?_ ?_
    · intro a k l w' hw ha halike
      cases heq halike
      exact ⟨rfl, w', hw, ha, hheld m.held halike⟩
    · intro f k l w' hw hadmits halike
      cases heq halike
      exact ⟨rfl, hadmits, w', hw, hheld m.held halike⟩
  | false =>
    rw [Engine.keep_of_plain ht, Engine.keep_of_plain ht]
    exact h m m hmn

end ScriptVM.Likeness
