import CServer.Logic.FastPass
import Mathlib.Data.BitVec

/-! # `world/modules/fight.c` and `world/config/fight.c`: the fights of a player

A player has a record for each fight that was prepared once: whether it was won, the stars as a mask of the best results
so far, the confirms of the day of the last one, and its time, which is an `int`. `fight_get` and `fight_next` set a count
of another day to 0 when they are asked for the record; `fight_prepare` and `fight_check` take the record as it is.
-/
namespace CServer.Logic
open CServer.Lib CServer.Modules Function

/-! ## The configuration -/

structure PveRules where
  supportGodHand : ℤ
  canYjdq : ℤ
  dependLevelId : ℤ
  dependStarCount : ℤ
  dependFight0Id : ℤ
  dependFight1Id : ℤ
  countPerDay : ℤ
  rank : ℤ
  battleId : ℤ

structure BattleRules where
  relyBattle : ℤ
  finishId : ℤ
  questId : ℤ
  chapterId : ℤ

structure ChapterRules where
  relyChapter : ℤ
  finishId : ℤ

structure PveTables where
  fight : ℤ → Option PveRules
  battle : ℤ → Option BattleRules
  chapter : ℤ → Option ChapterRules

def PveTables.fightBattle (t : PveTables) (gid : ℤ) : Option BattleRules := (t.fight gid).bind fun cfg => t.battle cfg.battleId

def PveTables.fightChapter (t : PveTables) (gid : ℤ) : Option ChapterRules :=
  (t.fightBattle gid).bind fun battle => t.chapter battle.chapterId

/-! ## The records -/

structure Fight where
  flag : ℤ
  todayCount : ℤ
  updateTime : ℤ
  star : BitVec 32

structure FightSet where
  m : ℤ → Option Fight
  list : List ℤ
  curFightId : ℤ

def fightNew : FightSet := ⟨fun _ => none, [], 0⟩

def Fight.seen (now : ℤ) (fight : Fight) : Fight :=
  if fightDay now ≠ fightDay fight.updateTime then { fight with todayCount := 0 } else fight

def FightSet.look (now : ℤ) (set : FightSet) (gid : ℤ) : FightSet :=
  { set with m := update set.m gid ((set.m gid).map (Fight.seen now)) }

def fightGet (now : ℤ) (set : FightSet) (gid : ℤ) : FightSet × Option Fight :=
  let set := set.look now gid
  (set, set.m gid)

/-- `fight_next`; the record after the last one is none. -/
def fightNext (now : ℤ) (set : FightSet) (ite : Option ℤ) : FightSet × Option ℤ :=
  let next := match ite with
    | none => set.list.head?
    | some gid => (set.list.drop (set.list.idxOf gid + 1)).head?
  match next with
  | none => (set, none)
  | some gid => (set.look now gid, some gid)

def retExist : ℤ := 2
def retFightCheckYjdqFail : ℤ := 37

def fightAdd (t : PveTables) (now : ℤ) (set : FightSet) (gid flag : ℤ) (star : BitVec 32) (count : ℤ) : FightSet × ℤ :=
  match t.fight gid with
  | none => (set, retNotExist)
  | some _ =>
    if (set.m gid).isSome then (set, retExist)
    else
      ({ set with
        m := update set.m gid (some ⟨flag, count, toInt now, star⟩)
        list := set.list ++ [gid] }, retSuccess)

def Fight.updated (now flag : ℤ) (star : BitVec 32) (count : ℤ) (fight : Fight) : Fight :=
  ⟨flag, count, toInt now, star ||| fight.star⟩

def FightSet.updateData (now : ℤ) (set : FightSet) (gid : ℤ) (fight : Fight) (flag : ℤ) (star : BitVec 32) (count : ℤ) :
    FightSet :=
  { set with m := update set.m gid (some (fight.updated now flag star count)) }

def fightPrepare (t : PveTables) (now : ℤ) (set : FightSet) (gid limit yjdq : ℤ) : FightSet × ℤ :=
  match set.m gid with
  | none =>
    if yjdq > 0 then (set, retFightCheckYjdqFail)
    else
      match fightAdd t now set gid 0 0 0 with
      | (set, r) => if r ≠ retSuccess then (set, r) else ({ set with curFightId := gid }, retSuccess)
  | some fight =>
    if yjdq > 0 ∧ fight.star.toInt ≤ 0 then (set, retFightCheckYjdqFail)
    else if fight.todayCount ≥ limit then (set, retFightCheckCountFail)
    else ({ set with curFightId := gid }, retSuccess)

def fightCheck (set : FightSet) (gid : ℤ) : FightSet × ℤ :=
  if set.curFightId ≠ gid then (set, retNotExist)
  else if (set.m gid).isNone then (set, retNotExist)
  else ({ set with curFightId := 0 }, retSuccess)

def fightResult (now : ℤ) (set : FightSet) (gid : ℤ) : FightSet × Bool :=
  match fightGet now set gid with
  | (set, fight) => (set, fight.any fun f => decide (f.flag ≠ 0))

/-! ## Looking at records -/

structure Looked (now : ℤ) (set set' : FightSet) : Prop where
  m : ∀ gid, set'.m gid = set.m gid ∨ set'.m gid = (set.m gid).map (Fight.seen now)
  list : set'.list = set.list
  curFightId : set'.curFightId = set.curFightId

variable {now : ℤ} {set set' set'' : FightSet}

theorem Fight.seen_seen (now : ℤ) (fight : Fight) : (fight.seen now).seen now = fight.seen now := by
  by_cases hday : fightDay now = fightDay fight.updateTime
  · have hsame : fight.seen now = fight := if_neg (not_not.mpr hday)
    rw [hsame, hsame]
  · have hzero : fight.seen now = { fight with todayCount := 0 } := if_pos hday
    rw [hzero]
    exact if_pos hday

@[simp] theorem Fight.seen_updateTime (now : ℤ) (fight : Fight) : (fight.seen now).updateTime = fight.updateTime := by
  unfold Fight.seen
  split <;> rfl

theorem looked_refl (now : ℤ) (set : FightSet) : Looked now set set := ⟨fun _ => .inl rfl, rfl, rfl⟩

theorem Looked.trans (h : Looked now set set') (h' : Looked now set' set'') : Looked now set set'' := by
  refine ⟨fun gid => ?_, h'.list.trans h.list, h'.curFightId.trans h.curFightId⟩
  rcases h.m gid with hm | hm
  · rw [← hm]
    exact h'.m gid
  · right
    rcases h'.m gid with hm' | hm'
    · exact hm'.trans hm
    · rw [hm', hm, Option.map_map]
      congr 1
      funext fight
      exact fight.seen_seen now

theorem looked_look (now : ℤ) (set : FightSet) (gid : ℤ) : Looked now set (set.look now gid) := by
  refine ⟨fun j => ?_, rfl, rfl⟩
  by_cases hj : j = gid
  · rw [hj]
    exact .inr (update_self ..)
  · exact .inl (update_of_ne hj _ _)

theorem look_self (now : ℤ) (set : FightSet) (gid : ℤ) : (set.look now gid).m gid = (set.m gid).map (Fight.seen now) :=
  update_self ..

theorem looked_result (now : ℤ) (set : FightSet) (gid : ℤ) : Looked now set (fightResult now set gid).1 :=
  looked_look now set gid

theorem looked_next (now : ℤ) (set : FightSet) (ite : Option ℤ) : Looked now set (fightNext now set ite).1 := by
  unfold fightNext
  simp only
  split
  · exact looked_refl now set
  · exact looked_look now set _

theorem Looked.isSome (h : Looked now set set') (gid : ℤ) : (set'.m gid).isSome = (set.m gid).isSome := by
  rcases h.m gid with hm | hm
  · rw [hm]
  · rw [hm, Option.isSome_map]

end CServer.Logic
