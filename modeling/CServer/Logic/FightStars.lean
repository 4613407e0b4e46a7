import CServer.Logic.FightSet

/-! # `world/modules/fight.c` and `property.c`: the stars of a player

Each two bits of the mask of a fight's stars are a condition of the fight, and `calc_star_count` counts the lower ones. The
total of the fights of rank `FIGHT_TYPE_STAR` is kept with the player: `fight_update_player_data` raises it by the new
stars, `fight_load` computes it again, and `property_change_total_star` only lets it grow. It is an `unsigned int`, and
sums of `int` wrap.
-/
namespace CServer.Logic
open CServer.Lib CServer.Modules Function List

/-! ## The code -/

def fightTypeStar : ℤ := 6

def calcStarCount (star : BitVec 32) : ℕ := (List.range 15).countP fun i => star &&& (1#32 <<< (i * 2)) != 0

def PveTables.StarRank (t : PveTables) (gid : ℤ) : Prop := ∃ cfg ∈ t.fight gid, cfg.rank = fightTypeStar

instance (t : PveTables) (gid : ℤ) : Decidable (t.StarRank gid) := inferInstanceAs (Decidable (∃ cfg ∈ t.fight gid, _))

structure StarPlayer where
  set : FightSet
  totalStar : BitVec 32

def starNew : StarPlayer := ⟨fightNew, 0⟩

def propertyChangeTotalStar (total totalStar : BitVec 32) : BitVec 32 := if total < totalStar then totalStar else total

def FightSet.insertRow (set : FightSet) (row : ℤ × Fight) : FightSet :=
  { set with m := update set.m row.1 (some row.2), list := set.list ++ [row.1] }

def PveTables.addStars (t : PveTables) (total : BitVec 32) (row : ℤ × Fight) : BitVec 32 :=
  if t.StarRank row.1 then total + BitVec.ofNat 32 (calcStarCount row.2.star) else total

def fightLoad (t : PveTables) (total : BitVec 32) (rows : List (ℤ × Fight)) : StarPlayer :=
  ⟨rows.foldl FightSet.insertRow fightNew, propertyChangeTotalStar total (rows.foldl t.addStars 0)⟩

def fightUpdatePlayerData (t : PveTables) (now : ℤ) (s : StarPlayer) (gid : ℤ) (fight : Fight) (flag : ℤ) (star : BitVec 32)
    (count : ℤ) : StarPlayer :=
  let ostar := calcStarCount fight.star
  let nstar := calcStarCount (fight.updated now flag star count).star
  ⟨s.set.updateData now gid fight flag star count,
    if nstar > ostar ∧ t.StarRank gid then
      propertyChangeTotalStar s.totalStar (s.totalStar + BitVec.ofNat 32 (nstar - ostar))
    else s.totalStar⟩

/-! ## Calls -/

structure RowOrder where
  order : List ℤ → List ℤ
  perm : ∀ l, (order l).Perm l

inductive StarCall
  | load (rows : RowOrder)
  | add (now gid flag count : ℤ)
  | update (now gid flag : ℤ) (star : BitVec 32) (count : ℤ)

/-- The rows are what the records were when they were released. -/
def StarPlayer.rows (s : StarPlayer) (rows : RowOrder) : List (ℤ × Fight) :=
  (rows.order s.set.list).filterMap fun gid => (s.set.m gid).map fun fight => (gid, fight)

/-- `load` releases the records and loads them; an `update` of a fight without a record returns `RET_ERROR`. -/
def starStep (t : PveTables) (s : StarPlayer) : StarCall → Except Fault StarPlayer
  | .load rows => .ok (fightLoad t s.totalStar (s.rows rows))
  | .add now gid flag count => .ok { s with set := (fightAdd t now s.set gid flag 0 count).1 }
  | .update now gid flag star count =>
    match s.set.m gid with
    | none => .ok s
    | some fight => .ok (fightUpdatePlayerData t now s gid fight flag star count)

def starsOf (t : PveTables) (set : FightSet) (gid : ℤ) : ℕ :=
  if t.StarRank gid then (set.m gid).elim 0 fun fight => calcStarCount fight.star else 0

def FightSet.starSum (t : PveTables) (set : FightSet) : ℕ := (set.list.map (starsOf t set)).sum

def Totalled (t : PveTables) (s : StarPlayer) : Prop := s.totalStar.toNat = s.set.starSum t

def NotLowered (t : PveTables) (s : StarPlayer) (c : StarCall) : Prop :=
  ∀ s', starStep t s c = .ok s' → s.totalStar ≤ s'.totalStar

theorem calcStarCount_le (star : BitVec 32) : calcStarCount star ≤ 15 := by
  have h := countP_le_length (p := fun i => star &&& (1#32 <<< (i * 2)) != 0) (l := List.range 15)
  rwa [length_range] at h

theorem calcStarCount_or (star old : BitVec 32) : calcStarCount old ≤ calcStarCount (star ||| old) := by
  refine countP_mono_left fun i _ hi => ?_
  rw [bne_iff_ne] at hi ⊢
  intro hzero
  rw [BitVec.and_comm, BitVec.and_or_distrib_left] at hzero
  refine hi ?_
  rw [BitVec.and_comm]
  exact (BitVec.or_eq_zero_iff.mp hzero).2

/-! ## Sums over the records -/

variable {t : PveTables} {set set' : FightSet} {s s' : StarPlayer} {gid : ℤ} {fight fight' : Fight}

theorem starsOf_some (hm : set.m gid = some fight) :
    starsOf t set gid = if t.StarRank gid then calcStarCount fight.star else 0 := by
  rw [starsOf, hm]
  rfl

theorem starsOf_congr (h : set'.m gid = set.m gid) : starsOf t set' gid = starsOf t set gid := by rw [starsOf, starsOf, h]

theorem starSum_replace (hnodup : set.list.Nodup) (hmem : gid ∈ set.list) (hlist : set'.list = set.list)
    (hm : ∀ j, j ≠ gid → set'.m j = set.m j) :
    set'.starSum t + starsOf t set gid = set.starSum t + starsOf t set' gid := by
  have hrest : (set.list.erase gid).map (starsOf t set') = (set.list.erase gid).map (starsOf t set) := by
    refine map_congr_left fun j hj => starsOf_congr (hm j ?_)
    rintro rfl
    exact hnodup.not_mem_erase hj
  have hold := sum_map_erase (starsOf t set) hmem
  have hnew := sum_map_erase (starsOf t set') hmem
  rw [hrest] at hnew
  rw [FightSet.starSum, FightSet.starSum, hlist]
  omega

theorem starsOf_le (gid : ℤ) : starsOf t set gid ≤ 15 := by
  unfold starsOf
  split
  · cases set.m gid with
    | none => exact Nat.zero_le _
    | some fight => exact calcStarCount_le _
  · exact Nat.zero_le _

theorem starSum_le {n : ℕ} (hnodup : set.list.Nodup) (hfew : {gid | t.StarRank gid}.encard ≤ n) : set.starSum t ≤ 15 * n := by
  have hcount : ∀ l : List ℤ, (l.map (starsOf t set)).sum ≤ 15 * (l.filter fun gid => t.StarRank gid).length := by
    intro l
    induction l with
    | nil => exact Nat.zero_le _
    | cons gid l ih =>
      rw [map_cons, sum_cons]
      by_cases hrank : t.StarRank gid
      · rw [filter_cons_of_pos (by simpa using hrank), length_cons]
        have hle : starsOf t set gid ≤ 15 := starsOf_le gid
        omega
      · rw [filter_cons_of_neg (by simpa using hrank), starsOf, if_neg hrank]
        omega
  have hsub : (((set.list.filter fun gid => t.StarRank gid).toFinset : Finset ℤ) : Set ℤ) ⊆ {gid | t.StarRank gid} := by
    intro gid hgid
    simp only [coe_toFinset, mem_filter, Set.mem_ofPred_eq, decide_eq_true_eq] at hgid
    exact hgid.2
  have hcard := (Set.encard_le_encard hsub).trans hfew
  rw [Set.encard_coe_eq_coe_finsetCard, toFinset_card_of_nodup (hnodup.filter _)] at hcard
  exact (hcount set.list).trans (Nat.mul_le_mul_left 15 (by exact_mod_cast hcard))

/-! ## The invariant -/

/-- The total is the sum over the records, each of which is in the list once. -/
structure StarPlayer.Kept (t : PveTables) (s : StarPlayer) : Prop where
  nodup : s.set.list.Nodup
  mem : ∀ gid, gid ∈ s.set.list ↔ (s.set.m gid).isSome = true
  total : Totalled t s

theorem kept_new (t : PveTables) : starNew.Kept t := ⟨nodup_nil, fun _ => ⟨nofun, nofun⟩, rfl⟩

theorem rows_fst (h : s.Kept t) (rows : RowOrder) : (s.rows rows).map Prod.fst = rows.order s.set.list := by
  have hall : ∀ l : List ℤ, (∀ gid ∈ l, (s.set.m gid).isSome = true) →
      (l.filterMap fun gid => (s.set.m gid).map fun fight => (gid, fight)).map Prod.fst = l := by
    intro l hl
    induction l with
    | nil => rfl
    | cons gid l ih =>
      obtain ⟨fight, hfight⟩ := Option.isSome_iff_exists.mp (hl gid mem_cons_self)
      rw [filterMap_cons, hfight, Option.map_some, map_cons, ih fun j hj => hl j (mem_cons_of_mem gid hj)]
  exact hall _ fun gid hgid => (h.mem gid).mp ((rows.perm _).mem_iff.mp hgid)

theorem rows_record {rows : RowOrder} {row : ℤ × Fight} (hrow : row ∈ s.rows rows) : s.set.m row.1 = some row.2 := by
  obtain ⟨gid, -, hgid⟩ := mem_filterMap.mp hrow
  obtain ⟨fight, hfight, rfl⟩ := Option.map_eq_some_iff.mp hgid
  exact hfight

theorem insertRows_spec {m : ℤ → Option Fight} (rows : List (ℤ × Fight)) :
    ∀ set : FightSet, (∀ row ∈ rows, m row.1 = some row.2) →
      (∀ gid, (rows.foldl FightSet.insertRow set).m gid = if gid ∈ rows.map Prod.fst then m gid else set.m gid) ∧
        (rows.foldl FightSet.insertRow set).list = set.list ++ rows.map Prod.fst := by
  induction rows with
  | nil => exact fun set _ => ⟨fun gid => by simp, by simp⟩
  | cons row rows ih =>
    intro set h
    obtain ⟨hm, hl⟩ := ih (set.insertRow row) fun j hj => h j (mem_cons_of_mem row hj)
    refine ⟨fun gid => ?_, ?_⟩
    · rw [foldl_cons, hm, map_cons]
      by_cases hgid : gid ∈ rows.map Prod.fst
      · rw [if_pos hgid, if_pos (mem_cons_of_mem _ hgid)]
      · rw [if_neg hgid, FightSet.insertRow]
        by_cases hrow : gid = row.1
        · rw [if_pos (hrow ▸ mem_cons_self), hrow, h row mem_cons_self]
          exact update_self ..
        · rw [if_neg fun hin => (mem_cons.mp hin).elim hrow hgid]
          exact update_of_ne hrow ..
    · rw [foldl_cons, hl, map_cons, FightSet.insertRow, append_assoc]
      rfl

theorem addStars_toNat (rows : List (ℤ × Fight)) : ∀ total : BitVec 32, (∀ row ∈ rows, set.m row.1 = some row.2) →
    total.toNat + ((rows.map Prod.fst).map (starsOf t set)).sum < 2 ^ 32 →
      (rows.foldl t.addStars total).toNat = total.toNat + ((rows.map Prod.fst).map (starsOf t set)).sum := by
  induction rows with
  | nil => exact fun total _ _ => rfl
  | cons row rows ih =>
    intro total h hfit
    rw [map_cons, map_cons, sum_cons, starsOf_some (h row mem_cons_self)] at hfit ⊢
    rw [foldl_cons, PveTables.addStars]
    by_cases hrank : t.StarRank row.1
    · rw [if_pos hrank] at hfit ⊢
      have hadd : (total + BitVec.ofNat 32 (calcStarCount row.2.star)).toNat = total.toNat + calcStarCount row.2.star := by
        rw [BitVec.toNat_add, BitVec.toNat_ofNat]
        omega
      rw [if_pos hrank, ih _ (fun j hj => h j (mem_cons_of_mem row hj)) (by omega), hadd, Nat.add_assoc]
    · rw [if_neg hrank, Nat.zero_add] at hfit
      rw [if_neg hrank, if_neg hrank, Nat.zero_add]
      exact ih _ (fun j hj => h j (mem_cons_of_mem row hj)) hfit

/-! ## One call -/

theorem le_change (total totalStar : BitVec 32) : total ≤ propertyChangeTotalStar total totalStar := by
  unfold propertyChangeTotalStar
  split
  · rename_i h
    exact BitVec.le_of_lt h
  · exact BitVec.le_refl total

theorem notLowered (t : PveTables) (s : StarPlayer) (c : StarCall) : NotLowered t s c := by
  intro s' hs'
  unfold starStep at hs'
  split at hs'
  · obtain rfl := Except.ok.inj hs'
    exact le_change _ _
  · obtain rfl := Except.ok.inj hs'
    exact BitVec.le_refl _
  · split at hs'
    · obtain rfl := Except.ok.inj hs'
      exact BitVec.le_refl _
    · obtain rfl := Except.ok.inj hs'
      simp only [fightUpdatePlayerData]
      split
      · exact le_change _ _
      · exact BitVec.le_refl _

theorem StarPlayer.Kept.of_perm (h : s.Kept t) (hm : s'.set.m = s.set.m) (hperm : s'.set.list.Perm s.set.list)
    (htotal : s'.totalStar = s.totalStar) : s'.Kept t := by
  have hstars : starsOf t s'.set = starsOf t s.set := funext fun gid => starsOf_congr (congrFun hm gid)
  refine ⟨hperm.nodup_iff.mpr h.nodup, fun gid => ?_, ?_⟩
  · rw [hperm.mem_iff, hm]
    exact h.mem gid
  · rw [Totalled, FightSet.starSum, htotal, hstars]
    exact h.total.trans (hperm.map _).sum_eq.symm

theorem StarPlayer.Kept.load (h : s.Kept t) (rows : RowOrder) : (fightLoad t s.totalStar (s.rows rows)).Kept t := by
  have hperm := rows.perm s.set.list
  obtain ⟨hm, hl⟩ := insertRows_spec (s.rows rows) fightNew fun row hrow => rows_record hrow
  rw [rows_fst h rows] at hm hl
  have hsum : ((rows.order s.set.list).map (starsOf t s.set)).sum = s.totalStar.toNat :=
    ((hperm.map _).sum_eq).trans h.total.symm
  have hload : ((s.rows rows).foldl t.addStars 0).toNat = s.totalStar.toNat := by
    have hadd := addStars_toNat (t := t) (s.rows rows) 0 fun row hrow => rows_record hrow
    rw [rows_fst h rows, hsum, BitVec.ofNat_eq_ofNat, BitVec.toNat_zero, Nat.zero_add] at hadd
    exact hadd s.totalStar.isLt
  refine h.of_perm (funext fun gid => ?_) ?_ ?_
  · refine (hm gid).trans ?_
    split
    · rfl
    · rename_i hno
      have hnone : ¬ (s.set.m gid).isSome = true := fun hsome => hno (hperm.mem_iff.mpr ((h.mem gid).mpr hsome))
      exact (Option.not_isSome_iff_eq_none.mp hnone).symm
  · refine (Perm.of_eq hl).trans ?_
    exact hperm
  · change propertyChangeTotalStar s.totalStar _ = s.totalStar
    rw [BitVec.eq_of_toNat_eq hload, propertyChangeTotalStar, ite_self]

theorem StarPlayer.Kept.add (h : s.Kept t) (now gid flag count : ℤ) :
    ({ s with set := (fightAdd t now s.set gid flag 0 count).1 } : StarPlayer).Kept t := by
  unfold fightAdd
  split
  · exact h
  · split
    · exact h
    · rename_i hno
      have hout : gid ∉ s.set.list := fun hin => hno ((h.mem gid).mp hin)
      have hzero : calcStarCount 0 = 0 := by decide
      refine ⟨?_, fun j => ?_, ?_⟩
      · exact h.nodup.append (nodup_singleton gid) (by simpa using hout)
      · simp only [mem_append, mem_singleton]
        by_cases hj : j = gid
        · rw [hj, update_self]
          exact iff_of_true (.inr rfl) rfl
        · rw [update_of_ne hj, h.mem j]
          exact or_iff_left hj
      · have hold : s.set.list.map (starsOf t { s.set with
            m := update s.set.m gid (some ⟨flag, count, toInt now, 0⟩), list := s.set.list ++ [gid] }) =
              s.set.list.map (starsOf t s.set) := by
          refine map_congr_left fun j hj => starsOf_congr (update_of_ne ?_ _ _)
          rintro rfl
          exact hout hj
        rw [Totalled, FightSet.starSum, map_append, hold, sum_append, map_singleton, sum_singleton,
          starsOf_some (update_self ..), hzero, ite_self, Nat.add_zero]
        exact h.total

theorem StarPlayer.Kept.update (h : s.Kept t) (hm : s.set.m gid = some fight) {now flag count : ℤ} {star : BitVec 32}
    (hfit : (fightUpdatePlayerData t now s gid fight flag star count).set.starSum t < 2 ^ 32) :
    (fightUpdatePlayerData t now s gid fight flag star count).Kept t := by
  have hmem : gid ∈ s.set.list := (h.mem gid).mpr (by rw [hm]; rfl)
  have hmore := calcStarCount_or star fight.star
  have hnew : (s.set.updateData now gid fight flag star count).m gid = some (fight.updated now flag star count) :=
    update_self ..
  have hsum := starSum_replace (t := t) h.nodup hmem (rfl : (s.set.updateData now gid fight flag star count).list = _)
    fun j hj => update_of_ne hj _ _
  rw [starsOf_some hm, starsOf_some hnew] at hsum
  have htotal := h.total
  rw [Totalled] at htotal
  refine ⟨h.nodup, fun j => ?_, ?_⟩
  · by_cases hj : j = gid
    · rw [hj]
      exact iff_of_true hmem (by rw [fightUpdatePlayerData, hnew]; rfl)
    · have hother : (s.set.updateData now gid fight flag star count).m j = s.set.m j := update_of_ne hj _ _
      rw [fightUpdatePlayerData, hother]
      exact h.mem j
  · rw [Totalled]
    simp only [fightUpdatePlayerData] at hfit ⊢
    change calcStarCount fight.star ≤ calcStarCount (fight.updated now flag star count).star at hmore
    by_cases hrank : t.StarRank gid
    · rw [if_pos hrank, if_pos hrank] at hsum
      split
      · rename_i hmask
        have hlt := hmask.1
        have hadd : (s.totalStar + BitVec.ofNat 32
            (calcStarCount (fight.updated now flag star count).star - calcStarCount fight.star)).toNat =
              (s.set.updateData now gid fight flag star count).starSum t := by
          rw [BitVec.toNat_add, BitVec.toNat_ofNat]
          omega
        rw [propertyChangeTotalStar, if_pos ?_]
        · exact hadd
        · rw [BitVec.lt_def, hadd]
          omega
      · rename_i hmask
        have hle := not_lt.mp fun hlt => hmask ⟨hlt, hrank⟩
        omega
    · rw [if_neg hrank, if_neg hrank] at hsum
      rw [if_neg fun hc => hrank hc.2]
      omega

/-! ## Runs -/

theorem kept_step (h : s.Kept t) (hfit : ∀ set : FightSet, set.list = s.set.list → set.starSum t < 2 ^ 32) {c : StarCall}
    (hs : starStep t s c = .ok s') : s'.Kept t := by
  unfold starStep at hs
  split at hs
  · obtain rfl := Except.ok.inj hs
    exact h.load _
  · obtain rfl := Except.ok.inj hs
    exact h.add _ _ _ _
  · split at hs
    · obtain rfl := Except.ok.inj hs
      exact h
    · rename_i hm
      obtain rfl := Except.ok.inj hs
      exact h.update hm (hfit _ rfl)

/-- The total is the sum over the records after every call and never decreases, as long as 15 stars for each fight of the
rank fit the total. -/
theorem fightStars_total (t : PveTables) (hfew : {gid | t.StarRank gid}.encard ≤ 286331153) (calls : List StarCall) :
    Throughout (starStep t) (Totalled t) starNew calls ∧ Along (starStep t) (NotLowered t) starNew calls := by
  have hstep : ∀ s c s', s.Kept t → True → starStep t s c = .ok s' → s'.Kept t := by
    refine fun s c s' h _ hs => kept_step h (fun set hlist => ?_) hs
    have hle := @starSum_le t set 286331153 (hlist ▸ h.nodup) (by exact_mod_cast hfew)
    omega
  have halways : ∀ is : List StarCall, ∀ s, Along (starStep t) (fun _ _ => True) s is :=
    fun is s => along_of_forall is s fun _ _ => trivial
  refine ⟨run_throughout (fun s h => StarPlayer.Kept.total h) hstep calls _ (kept_new t) (halways calls _), ?_⟩
  exact (along_congr (P := fun s => s.Kept t) hstep (fun s c _ _ => iff_of_true trivial (notLowered t s c)) calls _
    (kept_new t) (halways calls _)).mp (halways calls _)

def oneStarFight : PveTables :=
  ⟨fun gid => if gid = 1 then some ⟨0, 0, 0, 0, 0, 0, 0, fightTypeStar, 0⟩ else none, fun _ => none, fun _ => none⟩

def threeStars : List StarCall := [.add 0 1 0 0, .update 0 1 1 5 0, .load ⟨id, .refl⟩, .update 0 1 1 20 0]

theorem fightStars_three : Throughout (starStep oneStarFight) (Totalled oneStarFight) starNew threeStars ∧
    Along (starStep oneStarFight) (NotLowered oneStarFight) starNew threeStars := by
  refine fightStars_total oneStarFight ?_ threeStars
  have hsub : {gid | oneStarFight.StarRank gid} ⊆ {1} := by
    rintro gid ⟨cfg, hcfg, -⟩
    by_contra hne
    have hnone : oneStarFight.fight gid = none := if_neg hne
    rw [hnone] at hcfg
    exact nomatch hcfg
  refine (Set.encard_le_encard hsub).trans ?_
  rw [Set.encard_singleton]
  norm_num

/-! ## Where the total overflows -/

def manyFights : PveTables :=
  ⟨fun gid => if 1 ≤ gid ∧ gid ≤ 286331154 then some ⟨0, 0, 0, 0, 0, 0, 0, fightTypeStar, 0⟩ else none, fun _ => none,
    fun _ => none⟩

def fullMask : BitVec 32 := 0x15555555

def starCalls (n : ℕ) : List StarCall :=
  (List.range n).flatMap fun i : ℕ => [.add 0 (i + 1) 0 0, .update 0 (i + 1) 1 fullMask 0]

theorem starCalls_succ (n : ℕ) :
    starCalls (n + 1) = starCalls n ++ [.add 0 (n + 1) 0 0, .update 0 (n + 1) 1 fullMask 0] := by
  rw [starCalls, range_succ, flatMap_append]
  rfl

theorem manyFights_rank {n : ℕ} (hn : n < 286331154) : manyFights.StarRank (n + 1) := by
  have hrange : (1 : ℤ) ≤ n + 1 ∧ (n + 1 : ℤ) ≤ 286331154 := by omega
  exact ⟨_, if_pos hrange, rfl⟩

theorem star_add {n : ℕ} (hn : n < 286331154) (h : s.Kept manyFights) (hlist : ∀ gid ∈ s.set.list, gid ≤ n) :
    ∃ s', starStep manyFights s (.add 0 (n + 1) 0 0) = .ok s' ∧ s'.Kept manyFights ∧ s'.totalStar = s.totalStar ∧
      s'.set.list = s.set.list ++ [(n + 1 : ℤ)] ∧ s'.set.m (n + 1) = some ⟨0, 0, 0, 0⟩ := by
  have hnone : ¬ (s.set.m (n + 1)).isSome = true := by
    intro hsome
    have hle := hlist _ ((h.mem _).mpr hsome)
    omega
  obtain ⟨cfg, hcfg, -⟩ := manyFights_rank hn
  have hadd : (fightAdd manyFights 0 s.set (n + 1) 0 0 0).1 =
      ⟨update s.set.m (n + 1) (some ⟨0, 0, 0, 0⟩), s.set.list ++ [(n + 1 : ℤ)], s.set.curFightId⟩ := by
    rw [fightAdd, hcfg]
    simp only [if_neg hnone]
    rfl
  refine ⟨_, rfl, h.add _ _ _ _, rfl, ?_, ?_⟩
  · rw [hadd]
  · rw [hadd]
    exact update_self ..

theorem star_pair {n : ℕ} (hn : n < 286331154) (h : s.Kept manyFights) (hlist : ∀ gid ∈ s.set.list, gid ≤ n) :
    ∃ s', run (starStep manyFights) s [.add 0 (n + 1) 0 0, .update 0 (n + 1) 1 fullMask 0] = .ok s' ∧
      s'.set.list = s.set.list ++ [(n + 1 : ℤ)] ∧ s'.set.starSum manyFights = s.totalStar.toNat + 15 ∧
      s'.totalStar = propertyChangeTotalStar s.totalStar (s.totalStar + 15) ∧
      (s.totalStar.toNat + 15 < 2 ^ 32 → s'.Kept manyFights) := by
  obtain ⟨s₁, hs₁, h₁, htotal, hlist₁, hm⟩ := star_add hn h hlist
  have hrank := manyFights_rank hn
  have hfull : calcStarCount ((⟨0, 0, 0, 0⟩ : Fight).updated 0 1 fullMask 0).star = 15 := by decide
  have hzero : calcStarCount (⟨0, 0, 0, 0⟩ : Fight).star = 0 := by decide
  have hrun : run (starStep manyFights) s [.add 0 (n + 1) 0 0, .update 0 (n + 1) 1 fullMask 0] =
      .ok (fightUpdatePlayerData manyFights 0 s₁ (n + 1) ⟨0, 0, 0, 0⟩ 1 fullMask 0) := by
    rw [run, hs₁]
    simp only
    rw [run, starStep]
    simp only [hm]
    rfl
  have hsum : (s₁.set.updateData 0 (n + 1) ⟨0, 0, 0, 0⟩ 1 fullMask 0).starSum manyFights = s.totalStar.toNat + 15 := by
    have hmem : (n + 1 : ℤ) ∈ s₁.set.list := (h₁.mem _).mpr (by rw [hm]; rfl)
    have hreplace := starSum_replace (t := manyFights) h₁.nodup hmem
      (rfl : (s₁.set.updateData 0 (n + 1) ⟨0, 0, 0, 0⟩ 1 fullMask 0).list = _) fun j hj => update_of_ne hj _ _
    rw [starsOf_some hm, starsOf_some (update_self ..), if_pos hrank, if_pos hrank, hfull, hzero] at hreplace
    have hkept := h₁.total
    rw [Totalled, htotal] at hkept
    omega
  refine ⟨_, hrun, hlist₁, hsum, ?_, fun hfit => h₁.update hm (hsum.trans_lt hfit)⟩
  simp only [fightUpdatePlayerData, hfull, hzero, htotal]
  rw [if_pos ⟨by decide, hrank⟩]
  rfl

theorem starCalls_run {n : ℕ} (hn : n ≤ 286331153) : ∃ s, run (starStep manyFights) starNew (starCalls n) = .ok s ∧
    s.Kept manyFights ∧ s.totalStar.toNat = 15 * n ∧ ∀ gid ∈ s.set.list, gid ≤ n := by
  induction n with
  | zero => exact ⟨starNew, rfl, kept_new _, rfl, nofun⟩
  | succ n ih =>
    obtain ⟨s, hrun, hkept, htotal, hlist⟩ := ih (by omega)
    obtain ⟨s', hrun', hlist', hsum, -, hkept'⟩ := star_pair (by omega) hkept hlist
    have hnext := hkept' (by omega)
    refine ⟨s', ?_, hnext, ?_, fun gid hgid => ?_⟩
    · rw [starCalls_succ]
      exact (run_append _ _ hrun).trans hrun'
    · rw [hnext.total, hsum]
      omega
    · rw [hlist', mem_append, mem_singleton] at hgid
      rcases hgid with hgid | rfl
      · have hle := hlist gid hgid
        push_cast
        omega
      · push_cast
        omega

theorem last_untotalled {n : ℕ} (hn : n = 286331153) :
    ¬ Throughout (starStep manyFights) (Totalled manyFights) starNew (starCalls (n + 1)) := by
  intro h
  obtain ⟨s, hrun, hkept, htotal, hlist⟩ := starCalls_run (le_of_eq hn)
  obtain ⟨s', hrun', -, hsum, -⟩ := star_pair (by omega) hkept hlist
  rw [starCalls_succ] at h
  have hlast := h.last ((run_append _ _ hrun).trans hrun')
  rw [Totalled, hsum] at hlast
  have hlt := s'.totalStar.isLt
  omega

/-- The last fight adds nothing to the total. -/
theorem fightStars_overflow : ¬ Throughout (starStep manyFights) (Totalled manyFights) starNew (starCalls 286331154) :=
  last_untotalled rfl

end CServer.Logic
