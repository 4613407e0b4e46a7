import Mathlib.Tactic

/-! # Adaptive queries

A program that asks for the values of keys, one after another, and then gives a result. What it asks next may depend on
the answers it got.
-/
namespace CServer.Lib

variable {κ ν α β σ ε : Type}

inductive Query (κ ν α : Type)
  | ret (value : α)
  | ask (key : κ) (next : ν → Query κ ν α)

namespace Query

def bind : Query κ ν α → (α → Query κ ν β) → Query κ ν β
  | .ret a, f => f a
  | .ask k next, f => .ask k fun v => (next v).bind f

instance : Monad (Query κ ν) where
  pure := .ret
  bind := bind

def eval (table : κ → ν) : Query κ ν α → α
  | .ret a => a
  | .ask k next => (next (table k)).eval table

def asked (table : κ → ν) : Query κ ν α → List κ
  | .ret _ => []
  | .ask k next => k :: (next (table k)).asked table

/-- The answers come from a state, which they may change. -/
def run (get : σ → κ → Except ε (ν × σ)) : Query κ ν α → σ → Except ε (α × σ)
  | .ret a, s => .ok (a, s)
  | .ask k next, s =>
    match get s k with
    | .error e => .error e
    | .ok (v, s') => (next v).run get s'

variable {table table' : κ → ν}

theorem eval_congr (q : Query κ ν α) : (∀ k ∈ q.asked table, table' k = table k) → q.eval table' = q.eval table := by
  induction q with
  | ret a => exact fun _ => rfl
  | ask k next ih =>
    intro h
    rw [eval, eval, h k List.mem_cons_self]
    exact ih _ fun j hj => h j (List.mem_cons_of_mem k hj)

theorem run_eval {get : σ → κ → Except ε (ν × σ)} {P : σ → Prop} (q : Query κ ν α) :
    (∀ k ∈ q.asked table, ∀ s, P s → ∃ s', get s k = .ok (table k, s') ∧ P s') →
      ∀ s, P s → ∃ s', q.run get s = .ok (q.eval table, s') ∧ P s' := by
  induction q with
  | ret a => exact fun _ s hs => ⟨s, rfl, hs⟩
  | ask k next ih =>
    intro h s hs
    obtain ⟨s₁, hget, hs₁⟩ := h k List.mem_cons_self s hs
    obtain ⟨s', hrun, hs'⟩ := ih (table k) (fun j hj => h j (List.mem_cons_of_mem k hj)) s₁ hs₁
    refine ⟨s', ?_, hs'⟩
    rw [run, hget]
    exact hrun

end Query
end CServer.Lib
