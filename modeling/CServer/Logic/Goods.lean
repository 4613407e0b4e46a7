import CServer.Logic.Consume

/-! # Goods: what costs take from an inventory

A good is an item of the player or of a hero, and an inventory holds some number of each.
-/
namespace CServer.Logic
open CServer.Lib CServer.Modules Function Option

/-- What can be consumed and paid back: an item, or an item of a hero. -/
inductive Good
  | item (id : ℕ)
  | heroItem (uuid id : ℕ)
  deriving DecidableEq

def Good.id : Good → ℕ
  | .item id => id
  | .heroItem _ id => id

def Inventory.count (inv : Inventory) : Good → ℤ
  | .item id => ((inv.item id).getD 0 : ℕ)
  | .heroItem uuid id => (inv.heroItemCount uuid id : ℕ)

def goodOf (uuid type id : ℕ) : Option Good :=
  if type = rewardTypeItem then some (.item id)
  else if type = rewardTypeHeroItem then some (.heroItem uuid id)
  else none

/-! ## What consuming takes -/

section Takes
variable {packages : ConsumePackages} {inv : Inventory} {x : Good}

def owed (uuid : ℕ) (x : Good) (c : Cost) : ℤ := if goodOf uuid c.type c.id = some x then c.value else 0

theorem owed_nonneg (uuid : ℕ) (x : Good) (c : Cost) : 0 ≤ owed uuid x c := by
  unfold owed
  split
  · exact Int.natCast_nonneg _
  · exact le_refl 0

theorem goodOf_some {uuid type id : ℕ} (h : goodOf uuid type id = some x) :
    (type = rewardTypeItem ∧ x = .item id) ∨ (type = rewardTypeHeroItem ∧ x = .heroItem uuid id) := by
  unfold goodOf at h
  by_cases ht : type = rewardTypeItem
  · rw [if_pos ht] at h
    exact .inl ⟨ht, (some.inj h).symm⟩
  · rw [if_neg ht] at h
    by_cases hh : type = rewardTypeHeroItem
    · rw [if_pos hh] at h
      exact .inr ⟨hh, (some.inj h).symm⟩
    · rw [if_neg hh] at h
      cases h

theorem count_itemRemove {id limit value : ℕ} (h : inv.item id = some limit) (hv : value ≤ limit) (x : Good) :
    (inv.itemRemove id limit value).count x = inv.count x - if x = .item id then (value : ℤ) else 0 := by
  cases x with
  | item k =>
    unfold Inventory.itemRemove Inventory.count
    by_cases hk : k = id
    · subst hk
      simp only [update_self, h, getD_some, if_true]
      omega
    · have hne : ¬ Good.item k = Good.item id := fun he => hk (Good.item.inj he)
      simp only [update_of_ne hk, hne, if_false, sub_zero]
  | heroItem u k =>
    have hne : ¬ Good.heroItem u k = Good.item id := Good.noConfusion
    rw [if_neg hne, sub_zero]
    rfl

theorem count_heroItemRemove (uuid id value : ℕ) (x : Good) :
    (inv.heroItemRemove uuid id value).2.count x +
      (if (inv.heroItemRemove uuid id value).1 = 0 ∧ x = .heroItem uuid id then (value : ℤ) else 0) = inv.count x := by
  unfold Inventory.heroItemRemove
  split
  · exact add_zero _
  · split
    · next h0 => simp [h0]
    · cases hg : inv.heroItemGet uuid id with
      | none => exact add_zero _
      | some count =>
        have hpos : ¬ toInt id ≤ 0 := by
          intro hle
          rw [Inventory.heroItemGet, if_pos hle] at hg
          cases hg
        simp only
        split
        · exact add_zero _
        · cases x with
          | item k =>
            have hne : ¬ Good.item k = Good.heroItem uuid id := Good.noConfusion
            rw [if_neg fun he => hne he.2, add_zero]
            rfl
          | heroItem u k =>
            simp only [true_and, Good.heroItem.injEq]
            unfold Inventory.count Inventory.heroItemCount Inventory.heroItemGet
            by_cases hk : u = uuid ∧ k = id
            · obtain ⟨rfl, rfl⟩ := hk
              have hi : inv.heroItem u k = some count := by
                rwa [Inventory.heroItemGet, if_neg hpos] at hg
              simp only [hpos, if_false, update_self, hi, getD_some, and_self, if_true]
              omega
            · have hother : update inv.heroItem uuid
                  (update (inv.heroItem uuid) id (some (count - value))) u k = inv.heroItem u k := by
                by_cases hu : u = uuid
                · subst hu
                  rw [update_self, update_of_ne fun he => hk ⟨rfl, he⟩]
                · rw [update_of_ne hu]
              simp only [hother, hk, if_false, add_zero]

theorem packageItem_enough {value : ℕ} {items : List (ℕ × ℕ × ℤ)} {id limit n : ℕ}
    (h : packageItem inv value items = some (id, limit, n)) : inv.item id = some limit ∧ n ≤ limit := by
  induction items with
  | nil => cases h
  | cons it items ih =>
    obtain ⟨type, itemId, itemValue⟩ := it
    rw [packageItem] at h
    split at h
    · split at h
      · exact ih h
      · next l hl =>
        split at h
        · exact ih h
        · next henough =>
          simp only [some.injEq, Prod.mk.injEq] at h
          obtain ⟨rfl, rfl, rfl⟩ := h
          exact ⟨hl, by omega⟩
    · exact ih h

theorem consumePackage_takes (id value : ℕ) (x : Good) :
    (consumePackage packages inv id value).2.count x ≤ inv.count x := by
  unfold consumePackage
  split
  · exact le_refl _
  · split
    · exact le_refl _
    · next item limit n hp =>
      obtain ⟨hl, hn⟩ := packageItem_enough hp
      simp only
      rw [count_itemRemove hl hn]
      split <;> omega

/-- `inv` with the result `r` of consuming: no more of `x` than before, and on success less by what was owed. -/
def Takes (inv : Inventory) (x : Good) (owes : ℤ) (r : ℤ × Inventory) : Prop :=
  r.2.count x ≤ inv.count x ∧ (r.1 = 0 → r.2.count x + owes ≤ inv.count x)

theorem takes_refused {inv' : Inventory} {ret : ℤ} (hret : ret ≠ 0) (h : inv'.count x ≤ inv.count x) (owes : ℤ) :
    Takes inv x owes (ret, inv') := ⟨h, fun h0 => absurd h0 hret⟩

theorem takes_nothing {inv' : Inventory} {ret owes : ℤ} (howes : owes = 0) (h : inv'.count x ≤ inv.count x) :
    Takes inv x owes (ret, inv') := ⟨h, fun _ => by rw [howes, add_zero]; exact h⟩

theorem checkAndConsume_takes {pid : ℕ} (hpid : aiMaxId < pid) (uuid : ℕ) (c : Cost) (hx : x.id ≠ 0) :
    Takes inv x (owed uuid x c) (checkAndConsume packages pid inv uuid c) := by
  unfold checkAndConsume
  split
  · next hv =>
    apply takes_nothing _ (le_refl _)
    unfold owed
    rw [if_neg]
    intro hg
    rcases hv with h | h
    · rcases goodOf_some hg with ⟨ht, -⟩ | ⟨ht, -⟩
      · exact absurd (h.symm.trans ht) (by decide)
      · exact absurd (h.symm.trans ht) (by decide)
    · apply hx
      rcases goodOf_some hg with ⟨-, he⟩ | ⟨-, he⟩
      · rw [he]
        exact h
      · rw [he]
        exact h
  · split
    · omega
    · split
      · next ht =>
        have hgood : owed uuid x c = if x = .item c.id then (c.value : ℤ) else 0 := by
          unfold owed goodOf
          rw [if_pos ht]
          simp only [some.injEq, eq_comm]
        split
        · exact takes_refused (by decide) (le_refl _) _
        · next limit hl =>
          split
          · exact takes_refused (by decide) (le_refl _) _
          · have hcount := count_itemRemove hl (by omega : c.value ≤ limit) x
            rw [← hgood] at hcount
            have howed := owed_nonneg uuid x c
            exact ⟨by simp only [hcount]; omega, fun _ => by simp only [hcount]; omega⟩
      · next ht =>
        split
        · next hh =>
          have hgood : owed uuid x c = if x = .heroItem uuid c.id then (c.value : ℤ) else 0 := by
            unfold owed goodOf
            rw [if_neg ht, if_pos hh.1]
            simp only [some.injEq, eq_comm]
          have howed := owed_nonneg uuid x c
          have hcount := @count_heroItemRemove inv uuid c.id c.value x
          generalize inv.heroItemRemove uuid c.id c.value = r at hcount
          obtain ⟨ret, inv'⟩ := r
          simp only at hcount ⊢
          by_cases hret : ret = 0
          · simp only [hret, true_and] at hcount
            rw [← hgood] at hcount
            rw [if_neg (not_ne_iff.mpr hret)]
            exact ⟨by simp only; omega, fun _ => by simp only; omega⟩
          · rw [if_pos hret]
            apply takes_refused (by decide)
            rw [if_neg (fun h => hret h.1), add_zero] at hcount
            exact le_of_eq hcount
        · next hh =>
          have hgood : owed uuid x c = 0 := by
            unfold owed
            split
            · next hg =>
              rcases goodOf_some hg with ⟨hty, -⟩ | ⟨hty, -⟩
              · exact absurd hty ht
              · have h0 : ¬ c.value > 0 := fun h => hh ⟨hty, h⟩
                omega
            · rfl
          split
          · exact takes_nothing hgood (consumePackage_takes c.id c.value x)
          · exact takes_nothing hgood (le_refl _)

theorem consumeAll_takes {pid : ℕ} (hpid : aiMaxId < pid) {fail : ℤ} (hfail : fail ≠ 0) (uuid : ℕ) (hx : x.id ≠ 0)
    (cs : List Cost) : ∀ inv : Inventory,
      Takes inv x (cs.map (owed uuid x)).sum (consumeAll packages pid fail uuid inv cs) := by
  induction cs with
  | nil => exact fun inv => takes_nothing rfl (le_refl _)
  | cons c cs ih =>
    intro inv
    obtain ⟨hless, htake⟩ := @checkAndConsume_takes packages inv x pid hpid uuid c hx
    unfold consumeAll
    generalize checkAndConsume packages pid inv uuid c = r at hless htake
    obtain ⟨ret, inv'⟩ := r
    simp only at hless htake ⊢
    by_cases hret : ret = 0
    · rw [if_neg (not_ne_iff.mpr hret)]
      obtain ⟨hless', htake'⟩ := ih inv'
      have hfirst := htake hret
      refine ⟨hless'.trans hless, fun h0 => ?_⟩
      have hrest := htake' h0
      rw [List.map_cons, List.sum_cons]
      omega
    · rw [if_pos hret]
      exact takes_refused hfail hless _

end Takes

end CServer.Logic
