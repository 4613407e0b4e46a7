import CServer.Lib.Query

/-! # `fight/utils/PropertyFormula.lua`: formulas over properties

A formula reads properties, one after another, and gives a number. The formulas of attack, armor and health are those of
the source.
-/
namespace CServer.Fight
open CServer.Lib

/-- `isNumber` tells the raw ids from the names. `rank` is not in the source: that no key depends on itself. -/
structure Formulas (K V : Type) where
  isNumber : K → Bool
  formula : K → Option (Query K V V)
  rank : K → ℕ
  acyclic : ∀ k q, formula k = some q → ∀ table, ∀ j ∈ q.asked table, rank j < rank k

inductive PropertyKey
  | id (n : ℕ)
  | ad
  | baseAd
  | extraAd
  | armor
  | baseArmor
  | extraArmor
  | hp
  | hpp
  | baseHp
  | extraHp
  deriving DecidableEq

namespace PropertyKey

def read (key : PropertyKey) : Query PropertyKey ℚ ℚ := .ask key .ret

def base (value percent : ℕ) : Query PropertyKey ℚ ℚ := do
  return (← read (id value)) * (1 + (← read (id percent)) / 10000)

def extra (value percent fixed : ℕ) (base : PropertyKey) (basePercent : ℕ) : Query PropertyKey ℚ ℚ := do
  return (← read (id value)) * (1 + (← read (id percent)) / 10000) + (← read (id fixed)) +
    (← read base) * (← read (id basePercent)) / 10000

def total (base extra : PropertyKey) (percent : ℕ) : Query PropertyKey ℚ ℚ := do
  return ((← read base) + (← read extra)) * (1 + (← read (id percent)) / 10000)

def formula : PropertyKey → Option (Query PropertyKey ℚ ℚ)
  | ad => some (total baseAd extraAd 1014)
  | baseAd => some (base 1001 1011)
  | extraAd => some (extra 1002 1012 1003 baseAd 1013)
  | armor => some (total baseArmor extraArmor 1314)
  | baseArmor => some (base 1301 1311)
  | extraArmor => some (extra 1302 1312 1303 baseArmor 1313)
  | hp => some do return (← read hpp) - (← read (id 1599))
  | hpp => some (total baseHp extraHp 1514)
  | baseHp => some (base 1501 1511)
  | extraHp => some (extra 1502 1512 1503 baseHp 1513)
  | id _ => none

def isNumber : PropertyKey → Bool
  | id _ => true
  | _ => false

def rank : PropertyKey → ℕ
  | id _ => 0
  | baseAd | baseArmor | baseHp => 1
  | extraAd | extraArmor | extraHp => 2
  | ad | armor | hpp => 3
  | hp => 4

variable {table : PropertyKey → ℚ}

theorem asked_base (value percent : ℕ) : (base value percent).asked table = [id value, id percent] := rfl

theorem asked_extra (value percent fixed : ℕ) (b : PropertyKey) (basePercent : ℕ) :
    (extra value percent fixed b basePercent).asked table =
      [id value, id percent, id fixed, b, id basePercent] := rfl

theorem asked_total (b e : PropertyKey) (percent : ℕ) : (total b e percent).asked table = [b, e, id percent] := rfl

theorem rank_asked (k : PropertyKey) (q : Query PropertyKey ℚ ℚ) (hq : formula k = some q) (table : PropertyKey → ℚ) :
    ∀ j ∈ q.asked table, rank j < rank k := by
  cases k with
  | id n => nomatch hq
  | ad | armor | hpp =>
    obtain rfl := Option.some.inj hq
    rw [asked_total]
    decide
  | baseAd | baseArmor | baseHp =>
    obtain rfl := Option.some.inj hq
    rw [asked_base]
    decide
  | extraAd | extraArmor | extraHp =>
    obtain rfl := Option.some.inj hq
    rw [asked_extra]
    decide
  | hp =>
    obtain rfl := Option.some.inj hq
    change ∀ j ∈ [hpp, id 1599], rank j < rank hp
    decide

end PropertyKey

def defaultFormula : Formulas PropertyKey ℚ :=
  ⟨PropertyKey.isNumber, PropertyKey.formula, PropertyKey.rank, PropertyKey.rank_asked⟩

end CServer.Fight
