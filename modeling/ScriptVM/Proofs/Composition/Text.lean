import Mathlib.Data.Fintype.Card
import ScriptVM.Proofs.Passage.Rename

/-!
# Texts of values

The text of a value does not depend on what objects are called, nor on how many objects there are
besides: when a value has no text within one level more than there are objects, it contains itself
and has no text at all.
-/
namespace ScriptVM

theorem mapM_mono {α β : Type} {f g : α → Option β} {items : List α} {bs : List β}
    (h : ∀ a b, f a = some b → g a = some b)
    (hf : items.mapM f = some bs) : items.mapM g = some bs := by
  induction items generalizing bs with
  | nil => exact hf
  | cons a rest ih =>
    simp only [List.mapM_cons, Option.bind_eq_bind, Option.bind_eq_some_iff, Option.pure_def] at hf ⊢
    obtain ⟨b, hb, bs', hbs, hsome⟩ := hf
    exact ⟨b, h a b hb, bs', ih hbs, hsome⟩

namespace Heap

/-! ## Other names -/

/-- Texts do not depend on names, nor on members. -/
theorem textWithin_rename {σ : Value → Value} {h h' : Heap}
    (hh : ∀ v, h'.kind (σ v) = (h.kind v).rename σ) (depth : Nat) (quoted : Bool) (v : Value) :
    h'.textWithin depth quoted (σ v) = h.textWithin depth quoted v := by
  induction depth generalizing quoted v with
  | zero => rfl
  | succ depth ih =>
    have hitems : ∀ items : List Value, (items.map σ).mapM (h'.textWithin depth true) =
        items.mapM (h.textWithin depth true) := by
      intro items
      rw [List.mapM_map]
      exact congrArg (fun f => items.mapM f) (funext fun u => ih true u)
    unfold Heap.textWithin
    rw [hh]
    cases h.kind v with
    | tuple items => simp only [Kind.rename, hitems]
    | array items => simp only [Kind.rename, hitems]
    | hash t =>
      simp only [Kind.rename, Table.entries_rename, List.mapM_map]
      refine congrArg (Option.map hashText) (congrArg (fun f => t.entries.mapM f) ?_)
      funext entry
      simp only [Function.comp_apply, ih]
    | function f =>
      obtain ⟨callable, receiver⟩ := f
      simp only [Kind.rename, Function.rename, functionText]
      cases receiver <;> cases callable.name? <;> simp [typeName_rename hh]
    | type d => simp [Kind.rename]
    | object cls => simp only [Kind.rename, typeName_rename hh]
    | bool b => cases b <;> rfl
    | _ => rfl

/-! ## More levels -/

variable {h : Heap} {depth : Nat} {quoted : Bool} {v : Value}

theorem textWithin_succ {text : String} (htext : h.textWithin depth quoted v = some text) :
    h.textWithin (depth + 1) quoted v = some text := by
  induction depth generalizing quoted v text with
  | zero => cases htext
  | succ depth ih =>
    unfold Heap.textWithin at htext ⊢
    have hitems : ∀ {items : List Value} {texts}, items.mapM (h.textWithin depth true) = some texts →
        items.mapM (h.textWithin (depth + 1) true) = some texts :=
      fun hs => mapM_mono (fun _ _ hu => ih hu) hs
    cases hkind : h.kind v with
    | tuple items =>
      simp only [hkind, Option.map_eq_some_iff] at htext ⊢
      obtain ⟨texts, hs, rfl⟩ := htext
      exact ⟨texts, hitems hs, rfl⟩
    | array items =>
      simp only [hkind, Option.map_eq_some_iff] at htext ⊢
      obtain ⟨texts, hs, rfl⟩ := htext
      exact ⟨texts, hitems hs, rfl⟩
    | hash t =>
      simp only [hkind, Option.map_eq_some_iff] at htext ⊢
      obtain ⟨texts, hs, rfl⟩ := htext
      refine ⟨texts, mapM_mono (fun entry parts hparts => ?_) hs, rfl⟩
      simp only [Option.bind_eq_bind, Option.bind_eq_some_iff] at hparts ⊢
      obtain ⟨key, hkey, value, hvalue, hsome⟩ := hparts
      exact ⟨key, ih hkey, value, ih hvalue, hsome⟩
    | bool b => cases b <;> simpa only [hkind] using htext
    | _ => simpa only [hkind] using htext

/-- The values that stand inside a value. -/
def parts (h : Heap) (v : Value) : List Value :=
  match h.kind v with
  | .tuple items | .array items => items
  | .hash t => t.entries.flatMap fun entry => [entry.1, entry.2]
  | _ => []

/-- Whether a value has a text within so many levels. -/
def Fits (h : Heap) (depth : Nat) (v : Value) : Prop := (h.textWithin depth true v).isSome = true

/-- A value has a text when everything inside has one. -/
theorem isSome_textWithin (h : Heap) (depth : Nat) (quoted : Bool) (v : Value) :
    (h.textWithin (depth + 1) quoted v).isSome = true ↔ ∀ u ∈ h.parts v, h.Fits depth u := by
  unfold Heap.textWithin parts Fits
  cases h.kind v with
  | tuple items => simp [isSome_mapM]
  | array items => simp [isSome_mapM]
  | hash t =>
    have hentry : ∀ entry : Value × Value,
        (do
          let key ← h.textWithin depth true entry.1
          let value ← h.textWithin depth true entry.2
          return (key, value)).isSome =
            ((h.textWithin depth true entry.1).isSome && (h.textWithin depth true entry.2).isSome) := by
      intro entry
      cases h.textWithin depth true entry.1 <;> cases h.textWithin depth true entry.2 <;> rfl
    simp only [Option.isSome_map, isSome_mapM, hentry, Bool.and_eq_true, List.mem_flatMap]
    constructor
    · rintro hall u ⟨entry, hmem, hu⟩
      rcases List.mem_pair.1 hu with rfl | rfl
      · exact (hall entry hmem).1
      · exact (hall entry hmem).2
    · exact fun hall entry hmem => ⟨hall _ ⟨entry, hmem, List.mem_pair.2 (.inl rfl)⟩,
        hall _ ⟨entry, hmem, List.mem_pair.2 (.inr rfl)⟩⟩
  | bool b => cases b <;> simp
  | _ => simp

theorem Fits.succ (hv : h.Fits depth v) : h.Fits (depth + 1) v := by
  obtain ⟨text, htext⟩ := Option.isSome_iff_exists.1 hv
  exact Option.isSome_iff_exists.2 ⟨text, textWithin_succ htext⟩

theorem Fits.mono {depth' : Nat} (hv : h.Fits depth v) (hle : depth ≤ depth') : h.Fits depth' v := by
  induction hle with
  | refl => exact hv
  | step _ ih => exact ih.succ

/-- A value needs one level more than so many. -/
def Needs (h : Heap) (depth : Nat) (v : Value) : Prop := h.Fits (depth + 1) v ∧ ¬h.Fits depth v

theorem Needs.eq {depth' : Nat} (hv : h.Needs depth v) (hv' : h.Needs depth' v) : depth = depth' := by
  by_contra hne
  rcases Nat.lt_or_gt_of_ne hne with hlt | hlt
  · exact hv'.2 (hv.1.mono hlt)
  · exact hv.2 (hv'.1.mono hlt)

theorem Needs.part (hv : h.Needs (depth + 1) v) :
    v.address < h.objects.size ∧ ∃ u, h.Needs depth u := by
  obtain ⟨hfits, hnot⟩ := hv
  have hparts := (isSome_textWithin h (depth + 1) true v).1 hfits
  have hmissing : ¬∀ u ∈ h.parts v, h.Fits depth u :=
    fun hall => hnot ((isSome_textWithin h depth true v).2 hall)
  push Not at hmissing
  obtain ⟨u, hu, hunfit⟩ := hmissing
  refine ⟨?_, u, hparts u hu, hunfit⟩
  by_contra hle
  simp only [parts, kind, get, Array.getD, dif_neg hle] at hu
  cases hu

/-- A chain of values inside values, each of which needs one level less. -/
theorem Needs.chain (hv : h.Needs depth v) (j : Nat) (hj : j ≤ depth) : ∃ u, h.Needs j u := by
  induction depth generalizing v with
  | zero =>
    obtain rfl : j = 0 := Nat.le_zero.1 hj
    exact ⟨v, hv⟩
  | succ depth ih =>
    rcases Nat.lt_or_eq_of_le hj with hlt | rfl
    · obtain ⟨-, u, hu⟩ := hv.part
      exact ih hu (Nat.le_of_lt_succ hlt)
    · exact ⟨v, hv⟩

/-- No value needs more levels than there are objects. -/
theorem Needs.le_size (hv : h.Needs depth v) : depth ≤ h.objects.size := by
  have hchain : ∀ i : Fin depth, ∃ u, h.Needs (i + 1) u := fun i => hv.chain (i + 1) i.isLt
  choose link hlink using hchain
  have hinjective : Function.Injective fun i : Fin depth =>
      (⟨(link i).address, (hlink i).part.1⟩ : Fin h.objects.size) := by
    intro i j hij
    have hlinks : link i = link j := congrArg Value.mk (Fin.mk.inj hij)
    have hsame := (hlink i).eq (hlinks ▸ hlink j)
    exact Fin.ext (Nat.succ.inj hsame)
  simpa using Fintype.card_le_of_injective _ hinjective

/-- One level more than there are objects is enough for every text. -/
theorem textWithin_enough (h : Heap) (quoted : Bool) (v : Value) :
    h.textWithin (h.objects.size + 2) quoted v = h.textWithin (h.objects.size + 1) quoted v := by
  cases htext : h.textWithin (h.objects.size + 1) quoted v with
  | some text => exact textWithin_succ htext
  | none =>
    by_contra hmore
    have hfits : ∀ u ∈ h.parts v, h.Fits (h.objects.size + 1) u :=
      (isSome_textWithin h _ quoted v).1 (Option.isSome_iff_ne_none.2 hmore)
    have hnot : ¬∀ u ∈ h.parts v, h.Fits h.objects.size u := fun hall => by
      have hsome := (isSome_textWithin h _ quoted v).2 hall
      rw [htext] at hsome
      cases hsome
    have hneeds : h.Needs (h.objects.size + 1) v :=
      ⟨(isSome_textWithin h _ true v).2 hfits,
        fun hfit => hnot ((isSome_textWithin h _ true v).1 hfit)⟩
    exact absurd hneeds.le_size (by omega)

end Heap
end ScriptVM
