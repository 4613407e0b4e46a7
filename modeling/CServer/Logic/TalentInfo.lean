import CServer.Modules.Item

/-! # `world/logic/aL.c`: whose talent a request is about

A talent belongs to a hero, to the weapon of a hero, to a skill group of a hero or to an equip, and is
kept under its type and the uuid of the owner. A request names the owner by uuid, or by the id of the
kind of hero or of the weapon; old clients leave the type out. `talent_info` finds the real type and
uuid, and with them the talent id, under which the costs are configured.
-/
namespace CServer.Logic
open CServer.Lib CServer.Modules

/-! ## The code -/

def talentTypeHero : ℤ := 1
def talentTypeWeapon : ℤ := 2
def talentTypeEquip : ℤ := 3
def talentTypeHeroFight : ℤ := 4
def talentTypeHeroWork : ℤ := 5
def talentTypeHeroSkillMin : ℤ := 10
def talentTypeHeroSkillMax : ℤ := 20
def talentTypeMax : ℤ := 21

structure HeroConfig where
  id : ℤ
  star : ℤ
  weapon : ℤ
  talentId : ℤ
  fightTalentId : ℤ
  workTalentId : ℤ

structure WeaponConfig where
  id : ℤ
  talentId : ℤ

structure Hero where
  uuid : ℕ
  gid : ℕ
  level : ℤ
  weaponLevel : ℤ
  weaponStar : ℤ

structure TalentEquip where
  gid : ℤ
  level : ℤ

/-- The configuration and the player's heroes and equips. The loader refuses a second configuration of one
hero and ids that are not positive; `set->m` holds heroes of the list under their kind. -/
structure TalentOwners where
  heroConfigs : List HeroConfig
  heroConfigIds : DistinctKeys HeroConfig.id heroConfigs
  heroConfigPos : ∀ c ∈ heroConfigs, 0 < c.id ∧ c.id < 2 ^ 31
  weaponTalent : ℤ → Option ℤ
  skillGroups : ℤ → List (ℤ × ℤ)
  equipConfig : ℤ → Bool
  heroes : List Hero
  heroUuids : DistinctKeys Hero.uuid heroes
  heroOf : ℕ → Option Hero
  heroOf_mem : ∀ gid hero, heroOf gid = some hero → hero ∈ heroes ∧ hero.gid = gid
  equips : ℕ → Option TalentEquip

structure TalentInfo where
  type : ℤ
  id : ℕ
  refid : ℤ
  talentid : ℤ
  star : ℤ
  level : ℤ

namespace TalentOwners

variable (w : TalentOwners)

def getHeroConfig (gid : ℕ) : Option HeroConfig := lookup HeroConfig.id gid w.heroConfigs

def getHeroConfigByWeapon (wid : ℕ) : Option HeroConfig := lookup HeroConfig.weapon wid w.heroConfigs

def getWeaponConfig (id : ℤ) : Option WeaponConfig := (w.weaponTalent id).map fun t => ⟨id, t⟩

def heroGet (gid uuid : ℕ) : Option Hero :=
  if uuid ≠ 0 then lookup Hero.uuid uuid w.heroes else w.heroOf gid

def talentRealType (type refid : ℤ) : ℤ :=
  if (type = 0 ∨ type = talentTypeHero) ∧ (w.getHeroConfig (toUnsigned refid)).isSome then talentTypeHero
  else if (type = 0 ∨ type = talentTypeWeapon) ∧ (w.getWeaponConfig refid).isSome then talentTypeWeapon
  else if 0 < type ∧ type < talentTypeMax then type
  else 0

/-- `talent_hero_info`; `talentid` is the member of the configuration that the caller reads. -/
def talentHeroInfo (talentid : HeroConfig → ℤ) (type : ℤ) (id : ℕ) (refid : ℤ) : Option TalentInfo :=
  match w.heroGet (toUnsigned refid) id with
  | none => none
  | some hero =>
    match w.getHeroConfig hero.gid with
    | none => none
    | some cfg => some ⟨type, hero.uuid, hero.gid, talentid cfg, cfg.star, hero.level⟩

def weaponOwner (id : ℕ) (refid : ℤ) : Option Hero × Option HeroConfig :=
  if id ≠ 0 then
    let hero := w.heroGet (toUnsigned refid) id
    (hero, hero.bind fun hero => w.getHeroConfig hero.gid)
  else
    let cfg := w.getHeroConfigByWeapon (toUnsigned refid)
    (cfg.bind fun cfg => w.heroGet (toUnsigned cfg.id) id, cfg)

/-- `talent_weapon_info`: the weapon's configuration, and what is known but for the talent id. -/
def talentWeaponInfo (type : ℤ) (id : ℕ) (refid : ℤ) : Option (WeaponConfig × TalentInfo) :=
  match w.weaponOwner id refid with
  | (some hero, some cfg) =>
    match w.getWeaponConfig cfg.weapon with
    | none => none
    | some weaponCfg => some (weaponCfg, ⟨type, hero.uuid, cfg.weapon, 0, hero.weaponStar, hero.weaponLevel⟩)
  | _ => none

def skillTalent (type : ℤ) (weaponCfg : WeaponConfig) : Except Fault (Option ℤ) :=
  match w.getHeroConfigByWeapon (toUnsigned weaponCfg.id) with
  | none => .error .outOfBounds
  | some cfg => .ok (((w.skillGroups cfg.id).find? fun g => g.1 = type).map Prod.snd)

def talentInfo (type : ℤ) (id : ℕ) (refid : ℤ) : Except Fault (Option TalentInfo) :=
  let type := if type = 0 then w.talentRealType type refid else type
  if type = talentTypeHero then .ok (w.talentHeroInfo HeroConfig.talentId type id refid)
  else if type = talentTypeHeroFight then .ok (w.talentHeroInfo HeroConfig.fightTalentId type id refid)
  else if type = talentTypeHeroWork then .ok (w.talentHeroInfo HeroConfig.workTalentId type id refid)
  else if talentTypeHeroSkillMin ≤ type ∧ type ≤ talentTypeHeroSkillMax then
    match w.talentWeaponInfo type id refid with
    | none => .ok none
    | some (weaponCfg, info) => do
      let talentid ← w.skillTalent type weaponCfg
      .ok (talentid.map fun t => { info with talentid := t })
  else if type = talentTypeWeapon then
    .ok ((w.talentWeaponInfo type id refid).map fun p => { p.2 with talentid := p.1.talentId })
  else if type = talentTypeEquip then
    match w.equips id with
    | none => .ok none
    | some equip =>
      if w.equipConfig equip.gid then .ok (some ⟨type, id, equip.gid, equip.gid, 0, equip.level⟩) else .ok none
  else .ok none

/-! ## The talent id of an owner -/

def talentidOf (type : ℤ) (uuid : ℕ) : Option ℤ :=
  if type = talentTypeEquip then (w.equips uuid).map TalentEquip.gid
  else
    match (lookup Hero.uuid uuid w.heroes).bind fun hero => w.getHeroConfig hero.gid with
    | none => none
    | some cfg =>
      if type = talentTypeHero then some cfg.talentId
      else if type = talentTypeHeroFight then some cfg.fightTalentId
      else if type = talentTypeHeroWork then some cfg.workTalentId
      else if type = talentTypeWeapon then w.weaponTalent cfg.weapon
      else
        match w.skillTalent type ⟨cfg.weapon, 0⟩ with
        | .ok talentid => talentid
        | .error _ => none

variable {w : TalentOwners}

theorem heroGet_mem {gid uuid : ℕ} {hero : Hero} (h : w.heroGet gid uuid = some hero) :
    hero ∈ w.heroes ∧ (uuid = 0 → hero.gid = gid) := by
  unfold heroGet at h
  split at h
  · next hu => exact ⟨(lookup_some h).1, fun h0 => absurd h0 hu⟩
  · obtain ⟨hm, hg⟩ := w.heroOf_mem gid hero h
    exact ⟨hm, fun _ => hg⟩

theorem owner_config {hero : Hero} (h : hero ∈ w.heroes) :
    ((lookup Hero.uuid hero.uuid w.heroes).bind fun hero => w.getHeroConfig hero.gid) = w.getHeroConfig hero.gid := by
  rw [lookup_of_mem w.heroUuids h]
  rfl

theorem getHeroConfig_of_mem {cfg : HeroConfig} (h : cfg ∈ w.heroConfigs) :
    w.getHeroConfig (toUnsigned cfg.id) = some cfg := by
  have hpos := w.heroConfigPos cfg h
  have hid : ((toUnsigned cfg.id : ℕ) : ℤ) = cfg.id := by
    unfold toUnsigned
    omega
  rw [getHeroConfig, hid]
  exact lookup_of_mem w.heroConfigIds h

theorem weaponOwner_config {id : ℕ} {refid : ℤ} {hero : Hero} {cfg : HeroConfig}
    (h : w.weaponOwner id refid = (some hero, some cfg)) : hero ∈ w.heroes ∧ w.getHeroConfig hero.gid = some cfg := by
  unfold weaponOwner at h
  split at h
  · obtain ⟨h1, h2⟩ := Prod.mk.inj h
    rw [h1] at h2
    exact ⟨(heroGet_mem h1).1, h2⟩
  · next h0 =>
    obtain ⟨h1, h2⟩ := Prod.mk.inj h
    rw [h2] at h1
    obtain ⟨hm, hg⟩ := heroGet_mem h1
    rw [hg (not_ne_iff.mp h0)]
    exact ⟨hm, getHeroConfig_of_mem (lookup_some h2).1⟩

theorem talentHeroInfo_kept {talentid : HeroConfig → ℤ} {type : ℤ} {id : ℕ} {refid : ℤ} {info : TalentInfo}
    (h : w.talentHeroInfo talentid type id refid = some info) : info.type = type ∧
      ∃ cfg, ((lookup Hero.uuid info.id w.heroes).bind fun hero => w.getHeroConfig hero.gid) = some cfg ∧
        info.talentid = talentid cfg := by
  unfold talentHeroInfo at h
  split at h
  · cases h
  · next hero hh =>
    split at h
    · cases h
    · next cfg hc =>
      obtain rfl := Option.some.inj h
      exact ⟨rfl, cfg, (owner_config (heroGet_mem hh).1).trans hc, rfl⟩

theorem talentWeaponInfo_kept {type : ℤ} {id : ℕ} {refid : ℤ} {weaponCfg : WeaponConfig} {info : TalentInfo}
    (h : w.talentWeaponInfo type id refid = some (weaponCfg, info)) : info.type = type ∧
      ∃ cfg, ((lookup Hero.uuid info.id w.heroes).bind fun hero => w.getHeroConfig hero.gid) = some cfg ∧
        weaponCfg.id = cfg.weapon ∧ w.weaponTalent cfg.weapon = some weaponCfg.talentId := by
  unfold talentWeaponInfo at h
  split at h
  · next hero cfg ho =>
    obtain ⟨hm, hc⟩ := weaponOwner_config ho
    split at h
    · cases h
    · next wc hw =>
      obtain ⟨rfl, rfl⟩ := Prod.mk.inj (Option.some.inj h)
      obtain ⟨t, ht, rfl⟩ := Option.map_eq_some_iff.mp hw
      exact ⟨rfl, cfg, (owner_config hm).trans hc, rfl, ht⟩
  · cases h

theorem talentInfo_kept {type : ℤ} {id : ℕ} {refid : ℤ} {info : TalentInfo}
    (h : w.talentInfo type id refid = .ok (some info)) :
    (0 < info.type ∧ info.type < talentTypeMax) ∧ w.talentidOf info.type info.id = some info.talentid := by
  unfold talentInfo at h
  simp only at h
  generalize (if type = 0 then w.talentRealType type refid else type) = ty at h
  split at h
  · next ht =>
    obtain ⟨hty, cfg, hc, hid⟩ := talentHeroInfo_kept (Except.ok.inj h)
    subst ht
    rw [hty, hid]
    exact ⟨by decide, by simp [talentidOf, hc, talentTypeHero, talentTypeEquip]⟩
  · next h1 =>
    split at h
    · next ht =>
      obtain ⟨hty, cfg, hc, hid⟩ := talentHeroInfo_kept (Except.ok.inj h)
      subst ht
      rw [hty, hid]
      exact ⟨by decide, by simp [talentidOf, hc, talentTypeHeroFight, talentTypeHero, talentTypeEquip]⟩
    · next h2 =>
      split at h
      · next ht =>
        obtain ⟨hty, cfg, hc, hid⟩ := talentHeroInfo_kept (Except.ok.inj h)
        subst ht
        rw [hty, hid]
        refine ⟨by decide, ?_⟩
        simp [talentidOf, hc, talentTypeHeroWork, talentTypeHeroFight, talentTypeHero, talentTypeEquip]
      · next h3 =>
        split at h
        · next hs =>
          split at h
          · cases h
          · next weaponCfg info' hw =>
            obtain ⟨talentid, hsk, hi⟩ := bind_ok_iff.mp h
            obtain ⟨t, rfl, rfl⟩ := Option.map_eq_some_iff.mp (Except.ok.inj hi)
            obtain ⟨hty, cfg, hc, hwid, -⟩ := talentWeaponInfo_kept hw
            simp only [hty]
            have hsk' : w.skillTalent ty ⟨cfg.weapon, 0⟩ = .ok (some t) := by
              rw [← hsk, skillTalent, skillTalent, hwid]
            have he : ¬ ty = talentTypeEquip := by
              unfold talentTypeHeroSkillMin at hs
              unfold talentTypeEquip
              omega
            have hwp : ¬ ty = talentTypeWeapon := by
              unfold talentTypeHeroSkillMin at hs
              unfold talentTypeWeapon
              omega
            refine ⟨?_, by rw [talentidOf, if_neg he, hc]; simp only [h1, h2, h3, hwp, if_false, hsk']⟩
            unfold talentTypeHeroSkillMin talentTypeHeroSkillMax at hs
            unfold talentTypeMax
            omega
        · split at h
          · next ht =>
            obtain ⟨p, hp, rfl⟩ := Option.map_eq_some_iff.mp (Except.ok.inj h)
            obtain ⟨hty, cfg, hc, -, hwt⟩ := talentWeaponInfo_kept hp
            subst ht
            simp only [hty]
            refine ⟨by decide, ?_⟩
            rw [talentidOf, if_neg (by decide), hc]
            simp only [h1, h2, h3, if_false, if_true, hwt]
          · split at h
            · next ht =>
              subst ht
              split at h
              · cases h
              · next equip heq =>
                split at h
                · obtain rfl := Option.some.inj (Except.ok.inj h)
                  have hrange : 0 < talentTypeEquip ∧ talentTypeEquip < talentTypeMax := by decide
                  exact ⟨hrange, by simp [talentidOf, heq]⟩
                · cases h
            · cases h

end TalentOwners

end CServer.Logic
