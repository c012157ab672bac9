import Mathlib.Data.List.Nodup
import Mathlib.Data.List.Sublists
import Mathlib.Logic.Function.Basic

/-!
# Linearizability

A history has the calls that are made of an object, from wherever, and the answers to them, as they
come.  It is linearizable if the calls that are answered, and perhaps some others, can be put one
after another so that a sequential object gives these answers, and no call comes before one that was
answered before it was made.

The calls are put in order as they take effect, somewhere between the call and the answer.
`Tracks` is what there is to know of a history for this: what has been called, what has taken effect
and what the object has come to.  It starts from `Tracks.nil`, and `Tracks.invoke`, `Tracks.effect`
and `Tracks.respond` are the three ways it goes on, so that a program is shown to be linearizable by
saying which of its steps is which.
-/

set_option autoImplicit false

namespace Linearizability

open scoped List

variable {ι Op Res S : Type*}

/-- What there is to see of the call `i`. -/
inductive Action (ι Op Res : Type*) where
  | invoke (i : ι) (op : Op)
  | respond (i : ι) (res : Res)
  deriving DecidableEq

/-- From `s` the sequential object comes to `s'` by these calls, with these answers. -/
inductive Legal (spec : S → Op → Res → S → Prop) (s : S) : List (ι × Op × Res) → S → Prop where
  | nil : Legal spec s [] s
  | concat {order i op res s₁ s₂} (h : Legal spec s order s₁) (hspec : spec s₁ op res s₂) :
    Legal spec s (order ++ [(i, op, res)]) s₂

/-- The calls of `h` take effect in this order, and bring the object from `s` to `s'`. -/
structure Linearizes (spec : S → Op → Res → S → Prop) (s : S) (h : List (Action ι Op Res))
    (order : List (ι × Op × Res)) (s' : S) : Prop where
  once : (order.map Prod.fst).Nodup
  invoked : ∀ x ∈ order, .invoke x.1 x.2.1 ∈ h
  responded : ∀ i res, .respond i res ∈ h → ∃ op, (i, op, res) ∈ order
  legal : Legal spec s order s'
  /-- What was answered before something else was called comes before it. -/
  realTime : ∀ i res j op, [.respond i res, .invoke j op] <+ h → j ∈ order.map Prod.fst →
    [i, j] <+ order.map Prod.fst

/-- Two of a list with one more are two of the list, or the last is the new one. -/
theorem pair_sublist_concat {α : Type*} {a b c : α} {l : List α} :
    [a, b] <+ l ++ [c] ↔ [a, b] <+ l ∨ a ∈ l ∧ b = c := by
  constructor
  · intro h
    obtain ⟨l₁, l₂, heq, h₁, h₂⟩ := List.sublist_append_iff.mp h
    rcases List.sublist_singleton.mp h₂ with rfl | rfl
    · rw [List.append_nil] at heq
      exact Or.inl (heq ▸ h₁)
    · obtain ⟨rfl, hbc⟩ := List.append_inj' (show [a] ++ [b] = l₁ ++ [c] from heq) rfl
      exact Or.inr ⟨List.singleton_sublist.mp h₁, List.singleton_inj.mp hbc⟩
  · rintro (h | ⟨ha, rfl⟩)
    · exact h.trans (List.sublist_append_left ..)
    · exact (List.singleton_sublist.mpr ha).append (List.Sublist.refl [b])

namespace Linearizes

variable {spec : S → Op → Res → S → Prop} {s s₁ s₂ : S} {h : List (Action ι Op Res)}
  {order : List (ι × Op × Res)} {i : ι} {op : Op} {res : Res}

theorem nil (spec : S → Op → Res → S → Prop) (s : S) :
    Linearizes spec s ([] : List (Action ι Op Res)) [] s where
  once := List.nodup_nil
  invoked _ hx := absurd hx List.not_mem_nil
  responded _ _ hres := absurd hres List.not_mem_nil
  legal := .nil
  realTime _ _ _ _ hsub _ := absurd hsub (by simp)

/-- What is in the order has been called. -/
theorem exists_invoke (hl : Linearizes spec s h order s₁) (hi : i ∈ order.map Prod.fst) :
    ∃ op, .invoke i op ∈ h := by
  obtain ⟨x, hx, rfl⟩ := List.mem_map.mp hi
  exact ⟨x.2.1, hl.invoked x hx⟩

/-- A call is made. -/
theorem invoke (hl : Linearizes spec s h order s₁) (hi : ∀ op, .invoke i op ∉ h) (op : Op) :
    Linearizes spec s (h ++ [.invoke i op]) order s₁ where
  once := hl.once
  invoked x hx := List.mem_append_left _ (hl.invoked x hx)
  responded j res hres := by
    rcases List.mem_append.mp hres with hres | hres
    · exact hl.responded j res hres
    · cases List.mem_singleton.mp hres
  legal := hl.legal
  realTime j res k op' hsub hk := by
    rcases pair_sublist_concat.mp hsub with hsub | ⟨-, heq⟩
    · exact hl.realTime j res k op' hsub hk
    · -- the new call has not taken effect
      cases heq
      obtain ⟨op', hop'⟩ := hl.exists_invoke hk
      exact absurd hop' (hi op')

/-- A call takes effect. -/
theorem effect (hl : Linearizes spec s h order s₁) (hi : .invoke i op ∈ h)
    (hnew : i ∉ order.map Prod.fst) (hspec : spec s₁ op res s₂) :
    Linearizes spec s h (order ++ [(i, op, res)]) s₂ where
  once := by
    rw [List.map_append, List.map_singleton, ← List.concat_eq_append]
    exact hl.once.concat hnew
  invoked x hx := by
    rcases List.mem_append.mp hx with hx | hx
    · exact hl.invoked x hx
    · cases List.mem_singleton.mp hx
      exact hi
  responded j res' hres := by
    obtain ⟨op', hop'⟩ := hl.responded j res' hres
    exact ⟨op', List.mem_append_left _ hop'⟩
  legal := hl.legal.concat hspec
  realTime j res' k op' hsub hk := by
    rw [List.map_append, List.map_singleton] at hk ⊢
    rcases List.mem_append.mp hk with hk | hk
    · exact pair_sublist_concat.mpr (Or.inl (hl.realTime j res' k op' hsub hk))
    · -- whatever has been answered has taken effect before
      cases List.mem_singleton.mp hk
      obtain ⟨op'', hop''⟩ := hl.responded j res' (hsub.subset List.mem_cons_self)
      exact pair_sublist_concat.mpr (Or.inr ⟨List.mem_map_of_mem (f := Prod.fst) hop'', rfl⟩)

/-- A call that has taken effect is answered. -/
theorem respond (hl : Linearizes spec s h order s₁) (hi : (i, op, res) ∈ order) :
    Linearizes spec s (h ++ [.respond i res]) order s₁ where
  once := hl.once
  invoked x hx := List.mem_append_left _ (hl.invoked x hx)
  responded j res' hres := by
    rcases List.mem_append.mp hres with hres | hres
    · exact hl.responded j res' hres
    · cases List.mem_singleton.mp hres
      exact ⟨op, hi⟩
  legal := hl.legal
  realTime j res' k op' hsub hk := by
    rcases pair_sublist_concat.mp hsub with hsub | ⟨-, heq⟩
    · exact hl.realTime j res' k op' hsub hk
    · cases heq

end Linearizes

/-! ## What has been called, and what has taken effect -/

/-- The calls that have been made, with those that have taken effect and their answers, given yet or
not. -/
structure Tracks (spec : S → Op → Res → S → Prop) (s : S) (h : List (Action ι Op Res))
    (calls : ι → Option Op) (effects : ι → Option (Op × Res)) (s' : S) : Prop where
  calls_iff : ∀ i op, calls i = some op ↔ .invoke i op ∈ h
  exists_order : ∃ order, Linearizes spec s h order s' ∧ ∀ i y, effects i = some y ↔ (i, y) ∈ order

namespace Tracks

variable {spec : S → Op → Res → S → Prop} {s s₁ s₂ : S} {h : List (Action ι Op Res)}
  {calls : ι → Option Op} {effects : ι → Option (Op × Res)} {i : ι} {op : Op} {res : Res}

theorem nil (spec : S → Op → Res → S → Prop) (s : S) :
    Tracks spec s ([] : List (Action ι Op Res)) (fun _ ↦ none) (fun _ ↦ none) s where
  calls_iff _ _ := by simp
  exists_order := ⟨[], .nil spec s, fun _ _ ↦ by simp⟩

theorem congr (ht : Tracks spec s h calls effects s₁) {calls' : ι → Option Op}
    {effects' : ι → Option (Op × Res)} (hc : calls' = calls) (he : effects' = effects) :
    Tracks spec s h calls' effects' s₁ := hc ▸ he ▸ ht

theorem respond (ht : Tracks spec s h calls effects s₁) (hi : effects i = some (op, res)) :
    Tracks spec s (h ++ [.respond i res]) calls effects s₁ where
  calls_iff j op' := by
    rw [ht.calls_iff, List.mem_append]
    simp
  exists_order := by
    obtain ⟨order, hl, hmem⟩ := ht.exists_order
    exact ⟨order, hl.respond ((hmem i _).mp hi), hmem⟩

variable [DecidableEq ι]

theorem invoke (ht : Tracks spec s h calls effects s₁) (hi : calls i = none) (op : Op) :
    Tracks spec s (h ++ [.invoke i op]) (Function.update calls i (some op)) effects s₁ where
  calls_iff j op' := by
    rw [List.mem_append, List.mem_singleton, ← ht.calls_iff]
    by_cases hj : j = i
    · subst hj
      rw [Function.update_self, hi]
      simp [eq_comm]
    · rw [Function.update_of_ne hj]
      simp [hj]
  exists_order := by
    obtain ⟨order, hl, hmem⟩ := ht.exists_order
    refine ⟨order, hl.invoke (fun op' hop' ↦ ?_) op, hmem⟩
    rw [(ht.calls_iff i op').mpr hop'] at hi
    cases hi

theorem effect (ht : Tracks spec s h calls effects s₁) (hi : calls i = some op)
    (hnew : effects i = none) (hspec : spec s₁ op res s₂) :
    Tracks spec s h calls (Function.update effects i (some (op, res))) s₂ where
  calls_iff := ht.calls_iff
  exists_order := by
    obtain ⟨order, hl, hmem⟩ := ht.exists_order
    have hnot : i ∉ order.map Prod.fst := by
      rintro hi
      obtain ⟨⟨_, y⟩, hy, rfl⟩ := List.mem_map.mp hi
      rw [(hmem _ y).mpr hy] at hnew
      cases hnew
    refine ⟨_, hl.effect ((ht.calls_iff i op).mp hi) hnot hspec, fun j y ↦ ?_⟩
    rw [List.mem_append, List.mem_singleton, ← hmem]
    by_cases hj : j = i
    · subst hj
      rw [Function.update_self, hnew]
      simp [eq_comm]
    · rw [Function.update_of_ne hj]
      simp [hj]

/-- A call whose answer is `e` now takes effect if it had none before. -/
theorem advance (ht : Tracks spec s h calls effects s₁) (hi : calls i = some op) {e : Option Res}
    (he : effects i = e.map (op, ·) ∧ s₂ = s₁ ∨
      effects i = none ∧ ∃ res, e = some res ∧ spec s₁ op res s₂) :
    Tracks spec s h calls (Function.update effects i (e.map (op, ·))) s₂ := by
  rcases he with ⟨heq, rfl⟩ | ⟨hnone, res, rfl, hspec⟩
  · rw [← heq, Function.update_eq_self]
    exact ht
  · exact ht.effect hi hnone hspec

end Tracks

end Linearizability
