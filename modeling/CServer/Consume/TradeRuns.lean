import CServer.Consume.Trade

/-! # The market over whole runs

The code checks an order when a request begins and pays the seller before it charges the buyer, so orders and payments are
kept in the runs in which an order has one request at a time, the charge fails only where the mail did, and what is charged
is delivered.
-/
namespace CServer.Consume
open CServer.Lib

/-! ## What the log says -/

namespace Event

def rid : Event → ℕ
  | .taken rid _ _ _ => rid
  | .credited rid _ _ _ _ => rid
  | .charged rid _ _ _ => rid
  | .handed rid _ _ _ => rid
  | .answered rid _ => rid
  | .silent rid => rid

def gid : Event → Option ℕ
  | .credited _ gid _ _ _ => some gid
  | .charged _ gid _ _ => some gid
  | .handed _ gid _ _ => some gid
  | _ => none

def moves : Event → Bool
  | .taken _ _ _ _ => true
  | .credited _ _ _ _ _ => true
  | .charged _ _ _ _ => true
  | _ => false

end Event

def handedOn (gid : ℕ) (log : List Event) : List ℕ :=
  log.filterMap fun
    | .handed _ g pid _ => if g = gid then some pid else none
    | _ => none

def creditedOn (gid : ℕ) (log : List Event) : List ℤ :=
  log.filterMap fun
    | .credited _ g _ profit tax => if g = gid then some (profit.value + tax) else none
    | _ => none

def chargedOn (gid : ℕ) (log : List Event) : List ℤ :=
  log.filterMap fun
    | .charged _ g _ cost => if g = gid then some cost.value else none
    | _ => none

def Untouched (rid : ℕ) (log : List Event) : Prop := ∀ e ∈ log, e.rid = rid → e.moves = false

instance (rid : ℕ) (log : List Event) : Decidable (Untouched rid log) := List.decidableBAll _ _

def creditedBy (rid : ℕ) (log : List Event) : Bool :=
  log.any fun
    | .credited r _ _ _ _ => r == rid
    | _ => false

def Waiting.order : Waiting → Option Order
  | .sell _ _ => none
  | .takeBack order => some order
  | .buyerName order _ => some order
  | .mail order _ => some order
  | .charge order => some order
  | .deliver order => some order

def Waiting.gid (w : Waiting) : Option ℕ := w.order.map Order.gid

def Idle (s : Market) (gid : ℕ) : Prop := ∀ r ∈ s.inFlight, r.at'.gid ≠ some gid

instance (s : Market) (gid : ℕ) : Decidable (Idle s gid) := List.decidableBAll _ _

/-- An order is handed out at most once; once no request on it waits, what sellers were credited for it
together with the tax is what buyers were charged; and who is answered an error was neither charged
nor credited, nor was anyone by the request. -/
structure Conserved (s : Market) : Prop where
  handed : ∀ gid, (handedOn gid s.log).length ≤ 1
  credited : ∀ gid, Idle s gid → creditedOn gid s.log = chargedOn gid s.log
  errors : ∀ rid result, Event.answered rid result ∈ s.log → result ≠ .success → Untouched rid s.log

/-- What `SetOrder` accepts: the price last asked of the market and what is put up are positive. -/
def Market.Accepts (s : Market) (commodity : Commodity) : Prop :=
  (∃ cost ∈ s.cost, 0 < cost.value) ∧ 0 < commodity.value

instance (s : Market) (commodity : Commodity) : Decidable (s.Accepts commodity) :=
  inferInstanceAs (Decidable (_ ∧ _))

/-- The steps at which the code does what it should: what the cell has taken is accepted by the market; a
request on an order begins while none waits; the buyer is charged exactly where the mail to the seller
went out; and what was paid for is delivered. -/
def Regular (s : Market) : Act → Prop
  | .takeBack _ (some gid) => Idle s gid
  | .buy _ (some gid) _ _ => Idle s gid
  | .reply rid ok _ _ _ =>
    match lookup Request.rid rid s.inFlight with
    | none => True
    | some r =>
      match r.at' with
      | .sell commodity _ => ok = true → s.Accepts commodity
      | .charge _ => ok = creditedBy rid s.log
      | .deliver _ => ok = true
      | _ => True
  | _ => True

instance (s : Market) : (a : Act) → Decidable (Regular s a)
  | .clock _ => inferInstanceAs (Decidable True)
  | .sell _ _ _ _ => inferInstanceAs (Decidable True)
  | .takeBack _ none => inferInstanceAs (Decidable True)
  | .takeBack _ (some gid) => inferInstanceAs (Decidable (Idle s gid))
  | .buy _ none _ _ => inferInstanceAs (Decidable True)
  | .buy _ (some gid) _ _ => inferInstanceAs (Decidable (Idle s gid))
  | .reply rid ok _ _ _ => by
    simp only [Regular]
    split
    · infer_instance
    · split
      · infer_instance
      · infer_instance
      · infer_instance
      · infer_instance

/-! ## Adding to the log -/

variable {log es : List Event} {gid rid : ℕ}

theorem handedOn_append (gid : ℕ) (log es : List Event) :
    handedOn gid (log ++ es) = handedOn gid log ++ handedOn gid es := List.filterMap_append ..

theorem creditedOn_append (gid : ℕ) (log es : List Event) :
    creditedOn gid (log ++ es) = creditedOn gid log ++ creditedOn gid es := List.filterMap_append ..

theorem chargedOn_append (gid : ℕ) (log es : List Event) :
    chargedOn gid (log ++ es) = chargedOn gid log ++ chargedOn gid es := List.filterMap_append ..

theorem untouched_append : Untouched rid (log ++ es) ↔ Untouched rid log ∧ Untouched rid es := by
  simp only [Untouched, List.mem_append, or_imp, forall_and]

theorem creditedBy_append (rid : ℕ) (log es : List Event) :
    creditedBy rid (log ++ es) = (creditedBy rid log || creditedBy rid es) := List.any_append

theorem on_elsewhere (h : ∀ e ∈ es, e.gid ≠ some gid) :
    handedOn gid es = [] ∧ creditedOn gid es = [] ∧ chargedOn gid es = [] := by
  refine ⟨?_, ?_, ?_⟩
  all_goals
    refine List.filterMap_eq_nil_iff.mpr fun e he => ?_
    have hne := h e he
    cases e with
    | taken _ _ _ _ => rfl
    | credited _ g _ _ _ =>
      have hg : g ≠ gid := fun hg => hne (congrArg some hg)
      simp only [hg, if_false]
    | charged _ g _ _ =>
      have hg : g ≠ gid := fun hg => hne (congrArg some hg)
      simp only [hg, if_false]
    | handed _ g _ _ =>
      have hg : g ≠ gid := fun hg => hne (congrArg some hg)
      simp only [hg, if_false]
    | answered _ _ => rfl
    | silent _ => rfl

theorem untouched_elsewhere (h : ∀ e ∈ es, e.rid ≠ rid) : Untouched rid es := fun e he hr => absurd hr (h e he)

theorem creditedBy_of_untouched (h : Untouched rid log) : creditedBy rid log = false := by
  rw [creditedBy, List.any_eq_false]
  intro e he
  cases e with
  | credited r _ _ _ _ =>
    have hr : ¬ r = rid := fun hr => nomatch h _ he hr
    simpa using hr
  | taken _ _ _ _ => simp
  | charged _ _ _ _ => simp
  | handed _ _ _ _ => simp
  | answered _ _ => simp
  | silent _ => simp

end CServer.Consume
