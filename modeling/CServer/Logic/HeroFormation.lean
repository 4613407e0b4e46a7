import CServer.Logic.HeroExp

/-! # `world/modules/hero.c`: the places of the heroes in battle

A hero remembers his place, and `fight_formation` the hero in each of the places. A hero who enters a place sends the one
who stands there off and leaves his own. The leading role has a place of its own, which nobody else may take and which he
does not leave.

Heroes are addresses.
-/
namespace CServer.Logic
open CServer.Lib CServer.Modules Function

/-! ## The code -/

def heroIntoBattleMax : ℤ := 5
def leadingRolePlace : ℤ := 1

structure FormationHero where
  gid : ℕ
  placeholder : ℤ

structure HeroFormation where
  hero : ℕ → FormationHero
  fightFormation : ℕ → Option ℕ

namespace HeroFormation

variable (s : HeroFormation)

def updatePlaceholder (p : ℕ) (place : ℤ) : HeroFormation :=
  { s with hero := update s.hero p { s.hero p with placeholder := place } }

def setPlace (place : ℤ) (p : Option ℕ) : HeroFormation :=
  { s with fightFormation := update s.fightFormation (place - 1).toNat p }

def getPlace (place : ℤ) : Option ℕ := s.fightFormation (place - 1).toNat

/-- `hero_cancel_battle`; it refuses the leading role a second time further down. -/
def cancelBattle (p : ℕ) : ℤ × HeroFormation :=
  let old := (s.hero p).placeholder
  if old = 0 then (retSuccess, s)
  else if (s.hero p).gid = leadingRole then (retPermission, s)
  else if old ≤ 0 ∨ old > heroIntoBattleMax then (retParamError, s)
  else
    match s.getPlace old with
    | some q =>
      if (s.hero q).gid ≠ (s.hero p).gid then (retError, s) else (retSuccess, (s.setPlace old none).updatePlaceholder p 0)
    | none => (retSuccess, (s.setPlace old none).updatePlaceholder p 0)

def takePlace (p : ℕ) (place : ℤ) : HeroFormation :=
  let old := (s.hero p).placeholder
  let s := if old > 0 ∧ old ≤ heroIntoBattleMax then s.setPlace old none else s
  (s.updatePlaceholder p place).setPlace place (some p)

def intoBattle (p : ℕ) (place : ℤ) : ℤ × HeroFormation :=
  if place = (s.hero p).placeholder then (retSuccess, s)
  else if place = 0 then (retParamError, s)
  else if (s.hero p).gid = leadingRole ∧ place ≠ leadingRolePlace then (retPermission, s)
  else if (s.hero p).gid ≠ leadingRole ∧ place = leadingRolePlace then (retPermission, s)
  else if place > 0 ∧ place ≤ heroIntoBattleMax then
    match s.getPlace place with
    | some q =>
      match s.cancelBattle q with
      | (r, s) => if r ≠ retSuccess then (r, s) else (retSuccess, s.takePlace p place)
    | none => (retSuccess, s.takePlace p place)
  else (retParamError, s)

def updateFightFormation (pHero : Option ℕ) (newPlace : ℤ) : ℤ × HeroFormation :=
  match pHero with
  | none => (retError, s)
  | some p =>
    if newPlace = (s.hero p).placeholder then (retSuccess, s)
    else if newPlace = 0 then s.cancelBattle p
    else s.intoBattle p newPlace

end HeroFormation

/-- Places and heroes agree, and only the leading role stands in its place. -/
structure FormationCoherent (s : HeroFormation) : Prop where
  seated : ∀ i p, 1 ≤ i → i ≤ heroIntoBattleMax → (s.getPlace i = some p ↔ (s.hero p).placeholder = i)
  leading : ∀ p, (s.hero p).placeholder = leadingRolePlace → (s.hero p).gid = leadingRole

def LeadingStays (s s' : HeroFormation) : Prop :=
  ∀ p, (s'.hero p).gid = (s.hero p).gid ∧
    ((s.hero p).gid = leadingRole → (s.hero p).placeholder = leadingRolePlace → (s'.hero p).placeholder = leadingRolePlace)

variable {s : HeroFormation} {p q : ℕ} {place i : ℤ}

theorem hero_updatePlaceholder (q : ℕ) : (s.updatePlaceholder p place).hero q =
    if q = p then { s.hero p with placeholder := place } else s.hero q := by
  by_cases hq : q = p
  · rw [if_pos hq, hq]
    exact update_self ..
  · rw [if_neg hq]
    exact update_of_ne hq ..

theorem getPlace_setPlace {x : Option ℕ} (hi : 1 ≤ i) (hplace : 1 ≤ place) :
    (s.setPlace place x).getPlace i = if i = place then x else s.getPlace i := by
  by_cases h : i = place
  · rw [if_pos h, h]
    exact update_self ..
  · rw [if_neg h]
    have hne : (i - 1).toNat ≠ (place - 1).toNat := by omega
    exact update_of_ne hne ..

/-! ## Failures -/

theorem cancelBattle_failed (h : (s.cancelBattle p).1 ≠ retSuccess) : (s.cancelBattle p).2 = s := by
  revert h
  unfold HeroFormation.cancelBattle
  simp only
  split
  · exact fun _ => rfl
  split
  · exact fun _ => rfl
  split
  · exact fun _ => rfl
  split
  · split
    · exact fun _ => rfl
    · exact fun h => absurd rfl h
  · exact fun h => absurd rfl h

theorem intoBattle_failed (h : (s.intoBattle p place).1 ≠ retSuccess) : (s.intoBattle p place).2 = s := by
  revert h
  unfold HeroFormation.intoBattle
  split
  · exact fun _ => rfl
  split
  · exact fun _ => rfl
  split
  · exact fun _ => rfl
  split
  · exact fun _ => rfl
  split
  · split
    case h_1 q _ =>
      have hcancel := @cancelBattle_failed s q
      generalize s.cancelBattle q = r at hcancel
      obtain ⟨ret, s'⟩ := r
      simp only at hcancel ⊢
      split
      · exact hcancel
      · exact fun h => absurd rfl h
    case h_2 => exact fun h => absurd rfl h
  · exact fun _ => rfl

theorem updateFightFormation_failed (s : HeroFormation) (pHero : Option ℕ) (newPlace : ℤ)
    (h : (s.updateFightFormation pHero newPlace).1 ≠ retSuccess) : (s.updateFightFormation pHero newPlace).2 = s := by
  revert h
  unfold HeroFormation.updateFightFormation
  cases pHero with
  | none => exact fun _ => rfl
  | some p =>
    simp only
    split
    · exact fun _ => rfl
    split
    · exact cancelBattle_failed
    · exact intoBattle_failed

/-! ## Coherence -/

theorem LeadingStays.refl : LeadingStays s s := fun _ => ⟨rfl, fun _ h => h⟩

theorem LeadingStays.trans {s' s'' : HeroFormation} (h : LeadingStays s s') (h' : LeadingStays s' s'') : LeadingStays s s'' := by
  intro p
  obtain ⟨hgid, hstay⟩ := h p
  obtain ⟨hgid', hstay'⟩ := h' p
  exact ⟨hgid'.trans hgid, fun hlead hplace => hstay' (hgid.trans hlead) (hstay hlead hplace)⟩

theorem FormationCoherent.leave (h : FormationCoherent s) {old : ℤ} (hold : (s.hero p).placeholder = old) (hpos : 1 ≤ old) : FormationCoherent ((s.setPlace old none).updatePlaceholder p 0) := by
  have hplace : ∀ i, 1 ≤ i → ((s.setPlace old none).updatePlaceholder p 0).getPlace i = if i = old then none else s.getPlace i :=
    fun i hi => getPlace_setPlace hi hpos
  refine ⟨fun i q hi himax => ?_, fun q hq => ?_⟩
  · rw [hplace i hi, hero_updatePlaceholder]
    by_cases hqp : q = p
    · rw [if_pos hqp]
      split
      case isTrue => exact ⟨(nomatch ·), fun h0 => absurd h0 (by simp only; omega)⟩
      case isFalse hne =>
        rw [h.seated i q hi himax, hqp, hold]
        exact ⟨fun heq => absurd heq.symm hne, fun h0 => absurd h0 (by simp only; omega)⟩
    · rw [if_neg hqp]
      split
      case isTrue heq =>
        refine ⟨(nomatch ·), fun hq => absurd ?_ hqp⟩
        have hp := (h.seated i p hi himax).mpr (hold.trans heq.symm)
        rw [(h.seated i q hi himax).mpr hq] at hp
        exact Option.some.inj hp
      case isFalse => exact h.seated i q hi himax
  · rw [hero_updatePlaceholder] at hq ⊢
    split at hq
    case isTrue => exact absurd hq (show ¬ (0 : ℤ) = leadingRolePlace by decide)
    case isFalse hqp =>
      rw [if_neg hqp]
      exact h.leading q hq

theorem cancelBattle_coherent (h : FormationCoherent s) (p : ℕ) :
    FormationCoherent (s.cancelBattle p).2 ∧ LeadingStays s (s.cancelBattle p).2 := by
  have hleave : (s.hero p).placeholder ≠ 0 → (s.hero p).gid ≠ leadingRole →
      ¬ ((s.hero p).placeholder ≤ 0 ∨ (s.hero p).placeholder > heroIntoBattleMax) →
      FormationCoherent ((s.setPlace (s.hero p).placeholder none).updatePlaceholder p 0) ∧
        LeadingStays s ((s.setPlace (s.hero p).placeholder none).updatePlaceholder p 0) := by
    intro _ hgid hrange
    refine ⟨h.leave rfl (by omega), fun q => ?_⟩
    rw [hero_updatePlaceholder]
    by_cases hqp : q = p
    · rw [if_pos hqp, hqp]
      exact ⟨rfl, fun hlead => absurd hlead hgid⟩
    · rw [if_neg hqp]
      exact ⟨rfl, fun _ hplace => hplace⟩
  unfold HeroFormation.cancelBattle
  simp only
  split
  · exact ⟨h, .refl⟩
  case isFalse hzero =>
  split
  · exact ⟨h, .refl⟩
  case isFalse hgid =>
  split
  · exact ⟨h, .refl⟩
  case isFalse hrange =>
  split
  · split
    · exact ⟨h, .refl⟩
    · exact hleave hzero hgid hrange
  · exact hleave hzero hgid hrange

theorem takePlace_hero (q : ℕ) : (s.takePlace p place).hero q =
    if q = p then { s.hero p with placeholder := place } else s.hero q := by
  unfold HeroFormation.takePlace
  simp only
  split
  · exact hero_updatePlaceholder q
  · exact hero_updatePlaceholder q

theorem FormationCoherent.take (h : FormationCoherent s) (hpos : 1 ≤ place) (hmax : place ≤ heroIntoBattleMax)
    (hfree : s.getPlace place = none) (hlead : place = leadingRolePlace → (s.hero p).gid = leadingRole) :
    FormationCoherent (s.takePlace p place) := by
  have hplace : ∀ i, 1 ≤ i → i ≤ heroIntoBattleMax → (s.takePlace p place).getPlace i =
      if i = place then some p else if i = (s.hero p).placeholder then none else s.getPlace i := by
    intro i hi himax
    unfold HeroFormation.takePlace
    simp only
    rw [getPlace_setPlace hi hpos]
    congr 1
    split
    case isTrue hold => exact getPlace_setPlace hi (by omega)
    case isFalse hold =>
      rw [if_neg (by omega)]
      rfl
  refine ⟨fun i q hi himax => ?_, fun q hq => ?_⟩
  · rw [hplace i hi himax, takePlace_hero]
    by_cases hip : i = place
    · rw [if_pos hip]
      by_cases hqp : q = p
      · rw [if_pos hqp, hqp, hip]
        exact ⟨fun _ => rfl, fun _ => rfl⟩
      · rw [if_neg hqp]
        refine ⟨fun hpq => absurd (Option.some.inj hpq).symm hqp, fun hq => ?_⟩
        rw [hip] at hq
        rw [(h.seated place q hpos hmax).mpr hq] at hfree
        cases hfree
    · rw [if_neg hip]
      by_cases hqp : q = p
      · rw [if_pos hqp]
        simp only
        split
        case isTrue => exact ⟨(nomatch ·), fun heq => absurd heq.symm hip⟩
        case isFalse hold =>
          rw [h.seated i q hi himax, hqp]
          exact ⟨fun heq => absurd heq.symm hold, fun heq => absurd heq.symm hip⟩
      · rw [if_neg hqp]
        split
        case isTrue hold =>
          refine ⟨(nomatch ·), fun hq => absurd ?_ hqp⟩
          have hp := (h.seated i p hi himax).mpr hold.symm
          rw [(h.seated i q hi himax).mpr hq] at hp
          exact Option.some.inj hp
        case isFalse => exact h.seated i q hi himax
  · rw [takePlace_hero] at hq ⊢
    split
    case isTrue hqp =>
      rw [if_pos hqp] at hq
      exact hlead hq
    case isFalse hqp =>
      rw [if_neg hqp] at hq
      exact h.leading q hq

theorem takePlace_stays (hlead : (s.hero p).gid = leadingRole → place = leadingRolePlace) : LeadingStays s (s.takePlace p place) := by
  intro q
  rw [takePlace_hero]
  by_cases hqp : q = p
  · rw [if_pos hqp, hqp]
    exact ⟨rfl, fun hgid _ => hlead hgid⟩
  · rw [if_neg hqp]
    exact ⟨rfl, fun _ h => h⟩

theorem cancelBattle_frees (hplace : (s.hero q).placeholder = place) (hpos : 1 ≤ place)
    (hret : (s.cancelBattle q).1 = retSuccess) : (s.cancelBattle q).2.getPlace place = none := by
  have hfreed : ((s.setPlace place none).updatePlaceholder q 0).getPlace place = none := by
    have hset := @getPlace_setPlace s place place none hpos hpos
    rwa [if_pos rfl] at hset
  revert hret
  unfold HeroFormation.cancelBattle
  simp only [hplace]
  split
  · omega
  split
  · exact fun h => absurd h (show ¬ retPermission = retSuccess by decide)
  split
  · exact fun h => absurd h (show ¬ retParamError = retSuccess by decide)
  split
  · split
    · exact fun h => absurd h (show ¬ retError = retSuccess by decide)
    · exact fun _ => hfreed
  · exact fun _ => hfreed

theorem intoBattle_coherent (h : FormationCoherent s) (p : ℕ) (place : ℤ) :
    FormationCoherent (s.intoBattle p place).2 ∧ LeadingStays s (s.intoBattle p place).2 := by
  unfold HeroFormation.intoBattle
  split
  · exact ⟨h, .refl⟩
  split
  · exact ⟨h, .refl⟩
  split
  · exact ⟨h, .refl⟩
  case isFalse hlead =>
  split
  · exact ⟨h, .refl⟩
  case isFalse hother =>
  have hown : (s.hero p).gid = leadingRole → place = leadingRolePlace := fun hgid => by
    by_contra hne
    exact hlead ⟨hgid, hne⟩
  have hown' : place = leadingRolePlace → (s.hero p).gid = leadingRole := fun heq => by
    by_contra hne
    exact hother ⟨hne, heq⟩
  split
  case isTrue hrange =>
    split
    case h_1 q hq =>
      have hplace := (h.seated place q (by omega) hrange.2).mp hq
      obtain ⟨hcoherent, hstays⟩ := cancelBattle_coherent h q
      have hfrees := cancelBattle_frees hplace (by omega)
      generalize s.cancelBattle q = r at hcoherent hstays hfrees
      obtain ⟨ret, s'⟩ := r
      simp only at hcoherent hstays hfrees ⊢
      split
      · exact ⟨hcoherent, hstays⟩
      case isFalse hret =>
        obtain ⟨hgid, -⟩ := hstays p
        refine ⟨hcoherent.take (by omega) hrange.2 (hfrees (not_not.mp hret)) fun heq => hgid.trans (hown' heq), ?_⟩
        exact hstays.trans (takePlace_stays fun hl => hown (hgid.symm.trans hl))
    case h_2 hfree => exact ⟨h.take (by omega) hrange.2 hfree hown', takePlace_stays hown⟩
  case isFalse => exact ⟨h, .refl⟩

theorem updateFightFormation_coherent (h : FormationCoherent s) (pHero : Option ℕ) (newPlace : ℤ) :
    FormationCoherent (s.updateFightFormation pHero newPlace).2 ∧ LeadingStays s (s.updateFightFormation pHero newPlace).2 := by
  unfold HeroFormation.updateFightFormation
  cases pHero with
  | none => exact ⟨h, .refl⟩
  | some p =>
    simp only
    split
    · exact ⟨h, .refl⟩
    split
    · exact cancelBattle_coherent h p
    · exact intoBattle_coherent h p newPlace

def HeroFormation.run (s : HeroFormation) (calls : List (Option ℕ × ℤ)) : HeroFormation :=
  calls.foldl (fun s call => (s.updateFightFormation call.1 call.2).2) s

/-- After every sequence of calls from a coherent formation: it is coherent, the leading role stays, and the next call
changes nothing if it fails. -/
theorem formation_run (s : HeroFormation) (h : FormationCoherent s) (calls : List (Option ℕ × ℤ)) :
    FormationCoherent (s.run calls) ∧ LeadingStays s (s.run calls) ∧ ∀ pHero newPlace,
      ((s.run calls).updateFightFormation pHero newPlace).1 ≠ retSuccess →
        ((s.run calls).updateFightFormation pHero newPlace).2 = s.run calls := by
  refine and_assoc.mp ⟨?_, updateFightFormation_failed _⟩
  induction calls using List.reverseRecOn with
  | nil => exact ⟨h, .refl⟩
  | append_singleton calls call ih =>
    obtain ⟨hcoherent, hstays⟩ := ih
    obtain ⟨hcoherent', hstays'⟩ := updateFightFormation_coherent hcoherent call.1 call.2
    rw [HeroFormation.run, List.foldl_append]
    exact ⟨hcoherent', hstays.trans hstays'⟩

def onlyLeading : HeroFormation :=
  ⟨fun p => if p = 0 then ⟨leadingRole, 1⟩ else ⟨p, 0⟩, fun i => if i = 0 then some 0 else none⟩

theorem formation_run_three : FormationCoherent (onlyLeading.run [(some 7, 2), (some 8, 2), (some 8, 1)]) ∧
    LeadingStays onlyLeading (onlyLeading.run [(some 7, 2), (some 8, 2), (some 8, 1)]) ∧ ∀ pHero newPlace,
      ((onlyLeading.run [(some 7, 2), (some 8, 2), (some 8, 1)]).updateFightFormation pHero newPlace).1 ≠ retSuccess →
        ((onlyLeading.run [(some 7, 2), (some 8, 2), (some 8, 1)]).updateFightFormation pHero newPlace).2 =
          onlyLeading.run [(some 7, 2), (some 8, 2), (some 8, 1)] := by
  refine formation_run onlyLeading ⟨fun i p hi _ => ?_, fun p hp => ?_⟩ _
  · unfold HeroFormation.getPlace onlyLeading
    simp only
    by_cases hp : p = 0
    · rw [if_pos hp]
      by_cases hi1 : (i - 1).toNat = 0
      · rw [if_pos hi1, hp]
        exact ⟨fun _ => by simp only; omega, fun _ => rfl⟩
      · rw [if_neg hi1]
        exact ⟨(nomatch ·), fun h1 => absurd h1 (by simp only; omega)⟩
    · rw [if_neg hp]
      split
      · exact ⟨fun h0 => absurd (Option.some.inj h0).symm hp, fun h0 => absurd h0 (by simp only; omega)⟩
      · exact ⟨(nomatch ·), fun h0 => absurd h0 (by simp only; omega)⟩
  · unfold onlyLeading at hp ⊢
    simp only at hp ⊢
    split at hp
    case isTrue h0 => rw [if_pos h0]
    case isFalse => exact absurd hp (show ¬ (0 : ℤ) = leadingRolePlace by decide)

end CServer.Logic
