import Mathlib.Computability.StateTransition
import Mathlib.Tactic

/-!
# Programs of instructions, and where their runs end

A `CodeMachine` has a program counter and executes instructions; an instruction that fails has no next
state.  Runs are those of `StateTransition`: `Reaches`, and `eval` for the state a run ends in.

* `Leads f s P`         the run from `s` comes to a state with `P`;
* `Leads.head`, `Leads.bind`   by one step, by parts;
* `Leads.ends`, `Leads.mem_eval`   the end of such a run;
* `endless`            a run that comes back again and again;
* `CodeMachine.step`        the instruction at the counter.
-/

namespace Lib
open StateTransition

section
variable {σ : Type*} {f : σ → Option σ} {P Q : σ → Prop} {s t : σ}

/-- the run from `s` comes to a state with `P` -/
def Leads (f : σ → Option σ) (s : σ) (P : σ → Prop) : Prop := ∃ t, Reaches f s t ∧ P t

theorem Leads.here (h : P s) : Leads f s P := ⟨s, Relation.ReflTransGen.refl, h⟩

theorem Leads.head (h : f s = some t) (ht : Leads f t P) : Leads f s P := by
  obtain ⟨u, hr, hu⟩ := ht
  exact ⟨u, Relation.ReflTransGen.head h hr, hu⟩

theorem Leads.bind (h : Leads f s P) (hP : ∀ t, P t → Leads f t Q) : Leads f s Q := by
  obtain ⟨t, hr, ht⟩ := h
  obtain ⟨u, hr', hu⟩ := hP t ht
  exact ⟨u, Relation.ReflTransGen.trans hr hr', hu⟩

theorem Leads.mono (h : Leads f s P) (hPQ : ∀ t, P t → Q t) : Leads f s Q :=
  h.bind fun t ht => .here (hPQ t ht)

/-- the run ends there -/
theorem Leads.ends (h : Leads f s P) (hP : ∀ t, P t → f t = none) : ∃ t, t ∈ eval f s ∧ P t := by
  obtain ⟨t, hr, ht⟩ := h
  exact ⟨t, mem_eval.mpr ⟨hr, hP t ht⟩, ht⟩

/-- a run has one end: what holds of the ends of all runs from states with `P` holds of it -/
theorem Leads.mem_eval (h : Leads f s P) (hP : ∀ u, P u → ∀ t ∈ eval f u, Q t) :
    ∀ t ∈ eval f s, Q t := by
  obtain ⟨u, hr, hu⟩ := h
  rw [reaches_eval hr]
  exact hP u hu

/-- a run that comes to a state without a next one -/
theorem Leads.stuck (h : Leads f s fun u => P u ∧ f u = none) : ∀ t ∈ eval f s, P t := by
  refine h.mem_eval fun u ⟨hu, hnone⟩ t ht => ?_
  obtain rfl := Part.mem_unique ht (StateTransition.mem_eval.mpr ⟨Relation.ReflTransGen.refl, hnone⟩)
  exact hu

/-- a run that comes back to `P` again and again has no end -/
theorem endless (hP : ∀ s, P s → Leads f s fun u => ∃ t, f u = some t ∧ P t) (hs : P s) : t ∉ eval f s := by
  intro ht
  suffices hall : ∀ u, Reaches f s u → ¬ P u from hall s Relation.ReflTransGen.refl hs
  refine evalInduction ht fun a _ ih u hu hPu => ?_
  rcases Relation.ReflTransGen.cases_head hu with rfl | ⟨a', ha', hu'⟩
  · -- at `P`, the next state of `P` is a step further
    obtain ⟨w, hw, v, hv, hPv⟩ := hP a hPu
    rcases Relation.ReflTransGen.cases_head hw with rfl | ⟨a', ha', hw'⟩
    · exact ih v hv v Relation.ReflTransGen.refl hPv
    · exact ih a' ha' v (Relation.ReflTransGen.tail hw' hv) hPv
  · exact ih a' ha' u hu' hPu

end

/-- instructions `ι`, executed on states `σ` -/
structure CodeMachine (σ ι : Type*) where
  pc : σ → Nat
  exec : ι → σ → Option σ

namespace CodeMachine
variable {σ ι : Type*} (M : CodeMachine σ ι)

/-- the instruction at the counter; behind the code there is none -/
def step (code : List ι) (s : σ) : Option σ :=
  match code[M.pc s]? with
  | none => none
  | some i => M.exec i s

variable {M} {code : List ι} {s t : σ} {i : ι} {P : σ → Prop}

theorem step_at (h : code[M.pc s]? = some i) : M.step code s = M.exec i s := by
  unfold step
  rw [h]

theorem step_behind (h : code.length ≤ M.pc s) : M.step code s = none := by
  unfold step
  rw [List.getElem?_eq_none h]

/-- one instruction -/
theorem leads (h : code[M.pc s]? = some i) (he : M.exec i s = some t) (ht : Leads (M.step code) t P) :
    Leads (M.step code) s P := .head ((step_at h).trans he) ht

end CodeMachine

end Lib
