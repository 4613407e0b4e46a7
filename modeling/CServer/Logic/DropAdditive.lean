import CServer.Logic.DropReward

/-! # `world/logic/aL.c`: what a list of drops grants

A list of drops should grant what each of its drops grants on its own with the same values of `rand()`.
-/
namespace CServer.Logic.Drops
open CServer.Lib CServer.Modules List

/-! ## Drop by drop -/

/-- Each drop on its own, with the values of `rand()` that the one before it leaves. -/
def aloneAll (call : DropCall) (inv : Inventory) : ℕ → List DropInfo → Except Fault (List DropResult)
  | _, [] => .ok []
  | pos, d :: ds => do
    let r ← aLSendDropReward call inv [d] pos
    let rs ← aloneAll call inv r.pos ds
    return r :: rs

def heroTotal (grants : List HeroGrant) (uuid : ℕ) (item : Option ℤ) : BitVec 32 :=
  ((grants.filter fun g => g.uuid = uuid ∧ g.item = item).map HeroGrant.value).sum

/-- Something is chosen with tickets for the sum of the weights. -/
def Choice.Fair (c : Choice) : Prop := (∀ w ∈ c.weights, 0 < w) → c.total = c.weights.sum ∧ c.chosen = true

/-- `n` drops have been looked at, and what they have granted one by one, `rs`, has been granted. -/
structure Additive (r : DropResult) (n : ℕ) (rs : List DropResult) : Prop where
  seen : r.seen = n
  contents : r.contents.Perm (rs.flatMap DropResult.contents)
  heroes : ∀ uuid item, heroTotal r.heroes uuid item = (rs.map fun r' => heroTotal r'.heroes uuid item).sum
  committed : r.leaked = []
  fair : ∀ c ∈ r.choices, c.Fair

variable (call : DropCall)

def DropsRight (inv : Inventory) (drops : List DropInfo) (pos : ℕ) : Prop :=
  ∃ r rs, aLSendDropReward call inv drops pos = .ok r ∧ aloneAll call inv pos drops = .ok rs ∧ Additive r drops.length rs

def rowsOf (d : DropInfo) : List DropConfig :=
  if d.id = 0 then [] else (call.tables.drop d.id).getD []

def Plain (drops : List DropInfo) : Prop := ∀ d ∈ drops, d.id ≠ 0 → withItems call d = none

/-- What the numbers from `pos` on pick of the rows of a drop, where `p` is the level so far. -/
def picked (p : ℤ) (d : DropInfo) (pos : ℕ) : Except Fault (List Draw × ℕ) :=
  drawRows call (some (nextLevel p d)) (dropLevel call p d) (rowsOf call d) pos

/-- The same of all drops, each at the levels it has on its own. -/
def pickedAlone (call : DropCall) : ℕ → List DropInfo → Except Fault (List (List Draw))
  | _, [] => .ok []
  | pos, d :: ds => do
    let (draws, pos) ← picked call call.level d pos
    let rest ← pickedAlone call pos ds
    return draws :: rest

/-- The level that has been carried over, `p`, makes no difference to what is picked. -/
def LevelsSteady (call : DropCall) : ℤ → ℕ → List DropInfo → Prop
  | _, _, [] => True
  | p, pos, d :: ds => picked call p d pos = picked call call.level d pos ∧
      ∀ draws pos', picked call call.level d pos = .ok (draws, pos') → LevelsSteady call (nextLevel p d) pos' ds

def heroDraws (ds : List Draw) : List (ℤ × BitVec 32) :=
  (ds.filter fun d => d.value > 0 ∧ d.type = 90).map fun d => (d.id, BitVec.ofInt 32 d.value)

def heroIds (dss : List (List Draw)) : List ℤ := (heroDraws dss.flatten).map Prod.fst

def collected (ds : List Draw) : Collected := ds.foldl (collect call) ([], slotView heroSlots)

/-- Exp is refused at the places of which `f` says so, and at no other. -/
def GrantedAs (f : ℕ → Bool) (ds : List Draw) : Prop :=
  giveHeroes call (collected call ds).2 = (heroCalls call (collected call ds).2).filter fun g => g.item.isSome || f g.place

/-- No drop is configured with items; the numbers pick rows that have a value, the same at the level that is carried over;
the rows picked for heroes name at most 62 ids besides those of exp, and not the id 0; and the heroes that are refused exp
from all of them are those that are refused it from each. -/
structure DropsSound (call : DropCall) (drops : List DropInfo) (pos : ℕ) (dss : List (List Draw)) : Prop where
  plain : Plain call drops
  drawn : pickedAlone call pos drops = .ok dss
  levels : LevelsSteady call call.level pos drops
  named : 0 ∉ heroIds dss
  slots : (insert 90000 (insert 90001 (heroIds dss).toFinset)).card ≤ 64
  refused : ∃ f, GrantedAs call f dss.flatten ∧ ∀ ds ∈ dss, GrantedAs call f ds

/-! ## What is collected -/

def rewardDraws (ds : List Draw) : List Content :=
  ds.flatMap fun d => if d.value > 0 ∧ d.type ≠ 90 then addContentTo [] d else []

section Collected
variable {call : DropCall}

theorem addContentTo_eq (contents : List Content) (d : Draw) : addContentTo contents d = contents ++ addContentTo [] d := by
  rw [addContentTo, addContentTo]
  split
  · exact (append_nil contents).symm
  · rfl

theorem collect_draws (hsend : call.sendReward = true) (ds : List Draw) (acc : Collected) :
    ds.foldl (collect call) acc = (acc.1 ++ rewardDraws ds, (heroDraws ds).foldl (slotAdd 64) acc.2) := by
  induction ds generalizing acc with
  | nil => simp [rewardDraws, heroDraws]
  | cons d ds ih =>
    rw [foldl_cons, ih, collect]
    simp only [rewardDraws, heroDraws, flatMap_cons, filter_cons]
    by_cases hvalue : d.value > 0
    · by_cases htype : d.type = 90
      · simp [hsend, hvalue, htype]
      · rw [if_pos ⟨hsend, hvalue⟩, if_neg htype, addContentTo_eq]
        simp [hvalue, htype]
    · simp [hvalue]

theorem heroTotal_append (gs gs' : List HeroGrant) (uuid : ℕ) (item : Option ℤ) :
    heroTotal (gs ++ gs') uuid item = heroTotal gs uuid item + heroTotal gs' uuid item := by
  simp [heroTotal]

def shares (call : DropCall) (f : ℕ → Bool) (uuid : ℕ) (item : Option ℤ) (id : ℤ) : ℕ :=
  call.heros.zipIdx.countP fun h => h.1 = uuid ∧ heroShare call id h.1 = some item ∧ (item.isSome || f h.2) = true

theorem heroTotal_slot (f : ℕ → Bool) (heros : List (ℕ × ℕ)) (c : ℤ × BitVec 32) (uuid : ℕ) (item : Option ℤ) :
    heroTotal ((heros.filterMap fun h => (heroShare call c.1 h.1).map fun item => ⟨h.2, h.1, item, c.2⟩).filter
        fun g => g.item.isSome || f g.place) uuid item =
      (heros.countP fun h => h.1 = uuid ∧ heroShare call c.1 h.1 = some item ∧ (item.isSome || f h.2) = true) • c.2 := by
  induction heros with
  | nil => simp [heroTotal]
  | cons h heros ih =>
    rw [filterMap_cons, countP_cons]
    cases hshare : heroShare call c.1 h.1 with
    | none => simp [ih]
    | some item' =>
      simp only [Option.map_some, filter_cons]
      by_cases hmatch : h.1 = uuid ∧ item' = item
      · obtain ⟨rfl, rfl⟩ := hmatch
        cases hf : item'.isSome || f h.2 with
        | true =>
          have hcons (gs : List HeroGrant) : heroTotal (⟨h.2, h.1, item', c.2⟩ :: gs) h.1 item' = c.2 + heroTotal gs h.1 item' := by
            simp [heroTotal]
          simp [hcons, ih, add_smul, add_comm]
        | false => simp [ih]
      · have hcons (gs : List HeroGrant) : heroTotal (⟨h.2, h.1, item', c.2⟩ :: gs) uuid item = heroTotal gs uuid item := by
          simp [heroTotal, hmatch]
        have hnot : ¬ (h.1 = uuid ∧ (some item' : Option (Option ℤ)) = some item ∧ (item.isSome || f h.2) = true) :=
          fun hn => hmatch ⟨hn.1, Option.some.inj hn.2.1⟩
        simp only [decide_eq_false hnot, Bool.false_eq_true, if_false, Nat.add_zero, ← ih]
        split
        · exact hcons _
        · rfl

theorem heroTotal_calls (f : ℕ → Bool) {l : List (ℤ × BitVec 32)} (hkeys : ∀ c ∈ l, c.1 ≠ 0) (hl : l.length ≤ 64) (uuid : ℕ)
    (item : Option ℤ) : heroTotal ((heroCalls call (slotView l)).filter fun g => g.item.isSome || f g.place) uuid item =
      weighted (shares call f uuid item) l := by
  rw [heroCalls, slotView_entries hkeys hl]
  clear hl
  induction l with
  | nil => rfl
  | cons c l ih =>
    obtain ⟨_, hrest⟩ := forall_mem_cons.mp hkeys
    rw [flatMap_cons, filter_append, heroTotal_append, ih hrest]
    simp only [weighted, map_cons, sum_cons]
    congr 1
    by_cases hzero : c.2 = 0
    · simp [hzero, heroTotal]
    · rw [if_neg hzero, heroTotal_slot]
      rfl

theorem heroDraws_append (ds ds' : List Draw) : heroDraws (ds ++ ds') = heroDraws ds ++ heroDraws ds' := by
  simp [heroDraws]

theorem rewardDraws_flatten (dss : List (List Draw)) : rewardDraws dss.flatten = (dss.map rewardDraws).flatten := by
  induction dss with
  | nil => rfl
  | cons ds dss ih =>
    rw [flatten_cons, map_cons, flatten_cons, ← ih, rewardDraws, flatMap_append]
    rfl

theorem weighted_flatten (w : ℤ → ℕ) (dss : List (List Draw)) :
    weighted w (heroDraws dss.flatten) = (dss.map fun ds => weighted w (heroDraws ds)).sum := by
  induction dss with
  | nil => rfl
  | cons ds dss ih => rw [flatten_cons, heroDraws_append, weighted_append, ih, map_cons, sum_cons]

theorem heroTotal_draws {keys : Finset ℤ} (hhold : SlotsHold 64 keys heroSlots) (hsend : call.sendReward = true)
    {f : ℕ → Bool} {ds : List Draw} (hids : ∀ c ∈ heroDraws ds, c.1 ∈ keys) (hgranted : GrantedAs call f ds) (uuid : ℕ)
    (item : Option ℤ) :
    heroTotal (giveHeroes call (collected call ds).2) uuid item = weighted (shares call f uuid item) (heroDraws ds) := by
  obtain ⟨hhold', hview⟩ := slotAdds_view hhold hids
  have hempty : weighted (shares call f uuid item) heroSlots = 0 := by simp [weighted, heroSlots]
  rw [hgranted, collected, collect_draws hsend, hview,
    heroTotal_calls f (fun c hc h0 => hhold'.free (h0 ▸ hhold'.within c hc)) hhold'.length_le, weighted_puts, hempty, zero_add]

end Collected

/-! ## A list without items -/

section Plain
variable {call : DropCall} {inv : Inventory}

theorem sendDrops_plain (s : LoopState) {d : DropInfo} (ds : List DropInfo) (hplain : d.id ≠ 0 → withItems call d = none) :
    sendDrops call inv s (d :: ds) = (do
      let (draws, pos) ← picked call s.playerLevel d s.pos
      sendDrops call inv ⟨nextLevel s.playerLevel d, pos, draws.foldl (collect call) s.collected, s.seen + 1⟩ ds) := by
  rw [sendDrops, picked]
  by_cases h0 : d.id = 0
  · rw [if_pos h0, rowsOf, if_pos h0]
    rfl
  · rw [if_neg h0, hplain h0, rowsOf, if_neg h0]
    cases hrows : call.tables.drop d.id with
    | none => rfl
    | some rows => rfl

theorem alone_eq (hsend : call.sendReward = true) {d : DropInfo} (hplain : d.id ≠ 0 → withItems call d = none) (pos : ℕ) :
    aLSendDropReward call inv [d] pos = (do
      let (draws, pos) ← picked call call.level d pos
      .ok (finish call inv ⟨nextLevel call.level d, pos, collected call draws, 1⟩)) := by
  rw [aLSendDropReward, if_pos hsend, sendDrops_plain _ _ hplain]
  rfl

theorem runs_together (hsend : call.sendReward = true) (drops : List DropInfo) (hplain : Plain call drops) (s : LoopState)
    {dss : List (List Draw)} (hdrawn : pickedAlone call s.pos drops = .ok dss)
    (hlevels : LevelsSteady call s.playerLevel s.pos drops) :
    ∃ (rs : List DropResult) (level : ℤ) (pos : ℕ),
      sendDrops call inv s drops =
        .ok (finish call inv ⟨level, pos, dss.flatten.foldl (collect call) s.collected, s.seen + drops.length⟩) ∧
      aloneAll call inv s.pos drops = .ok rs ∧
      rs.map (fun r => (r.contents, r.heroes)) = dss.map (fun ds =>
        ((collected call ds).1, giveHeroes call (collected call ds).2)) := by
  induction drops generalizing s dss with
  | nil =>
    obtain rfl := Except.ok.inj hdrawn
    exact ⟨[], s.playerLevel, s.pos, rfl, rfl, rfl⟩
  | cons d drops ih =>
    obtain ⟨hplainHere, hplainRest⟩ := forall_mem_cons.mp hplain
    obtain ⟨⟨ds, pos⟩, hown, hrest⟩ := bind_ok_iff.mp hdrawn
    obtain ⟨dss', hdrawn', hdss⟩ := bind_ok_iff.mp hrest
    obtain rfl := Except.ok.inj hdss
    obtain ⟨hsame, hlevels'⟩ := hlevels
    obtain ⟨rs, level, pos', hrun, halone, hmap⟩ := ih hplainRest
      ⟨nextLevel s.playerLevel d, pos, ds.foldl (collect call) s.collected, s.seen + 1⟩ hdrawn' (hlevels' ds pos hown)
    refine ⟨finish call inv ⟨nextLevel call.level d, pos, collected call ds, 1⟩ :: rs, level, pos', ?_, ?_, ?_⟩
    · rw [sendDrops_plain s drops hplainHere, hsame, hown, ok_bind]
      dsimp only
      rw [hrun, flatten_cons, foldl_append, length_cons]
      dsimp only
      rw [Nat.add_assoc, Nat.add_comm 1]
    · have hpos : (finish call inv ⟨nextLevel call.level d, pos, collected call ds, 1⟩).pos = pos := by
        rw [finish, if_pos hsend]
      rw [aloneAll, alone_eq hsend hplainHere, hown, ok_bind, ok_bind, hpos, halone]
      rfl
    · rw [map_cons, map_cons, hmap, finish, if_pos hsend]

theorem drawn_of_alone (hsend : call.sendReward = true) (drops : List DropInfo) (hplain : Plain call drops) {pos : ℕ}
    {rs : List DropResult} (halone : aloneAll call inv pos drops = .ok rs) :
    ∃ dss, pickedAlone call pos drops = .ok dss := by
  induction drops generalizing pos rs with
  | nil => exact ⟨[], rfl⟩
  | cons d drops ih =>
    obtain ⟨hplainHere, hplainRest⟩ := forall_mem_cons.mp hplain
    rw [aloneAll, alone_eq hsend hplainHere] at halone
    obtain ⟨r, hr, halone⟩ := bind_ok_iff.mp halone
    obtain ⟨⟨ds, pos'⟩, hown, hr⟩ := bind_ok_iff.mp hr
    obtain rfl := Except.ok.inj hr
    obtain ⟨rs', hrest, -⟩ := bind_ok_iff.mp halone
    have hpos : (finish call inv ⟨nextLevel call.level d, pos', collected call ds, 1⟩).pos = pos' := by
      rw [finish, if_pos hsend]
    rw [hpos] at hrest
    obtain ⟨dss, hdss⟩ := ih hplainRest hrest
    refine ⟨ds :: dss, ?_⟩
    rw [pickedAlone, hown, ok_bind]
    dsimp only
    rw [hdss]
    rfl

theorem plain_of_committed (drops : List DropInfo) {s : LoopState} {r : DropResult}
    (hr : sendDrops call inv s drops = .ok r) (hleaked : r.leaked = []) : Plain call drops := by
  induction drops generalizing s with
  | nil => exact fun d hd => absurd hd not_mem_nil
  | cons d drops ih =>
    rw [sendDrops] at hr
    by_cases h0 : d.id = 0
    · rw [if_pos h0] at hr
      exact forall_mem_cons.mpr ⟨fun h => absurd h0 h, ih hr⟩
    · rw [if_neg h0] at hr
      cases hitems : withItems call d with
      | some groups =>
        rw [hitems] at hr
        obtain ⟨g, _, hg⟩ := bind_ok_iff.mp hr
        obtain rfl := Except.ok.inj hg
        exact absurd hleaked (cons_ne_nil _ _)
      | none =>
        refine forall_mem_cons.mpr ⟨fun _ => hitems, ?_⟩
        rw [hitems] at hr
        cases hrows : call.tables.drop d.id with
        | none =>
          rw [hrows] at hr
          exact ih hr
        | some rows =>
          rw [hrows] at hr
          obtain ⟨⟨ds, pos⟩, _, hr⟩ := bind_ok_iff.mp hr
          exact ih hr

end Plain

/-! ## The list -/

def threeOf (id : ℤ) : DropConfig where
  firstDrop := false
  group := 0
  dropRate := 10000
  type := 41
  id := id
  minValue := 3
  maxValue := 3
  minIncr := 0
  maxIncr := 0
  actTime := 0
  endTime := 0
  actDropRate := 0
  actValueRate := 0
  levelLimitMin := 0
  levelLimitMax := 100

def threeDrops : DropCall where
  tables :=
    { drop := fun id => if id = 2 ∨ id = 3 then some [threeOf id] else none
      withItem := fun id => if id = 1 then some fun i => if i = 0 then [⟨1, 1, 0, 0, [threeOf 1]⟩] else [] else none
      scale := fun _ value => value }
  rand _ := 0
  now := 1000
  pid := 100001
  level := 10
  heros := []
  heroGid _ := none
  heroExp _ := 0
  leader := none
  levelOf _ _ := 0
  factor := 1
  firstTime := false
  sendReward := true
  commit inv _ := inv

def noItems : Inventory := ⟨fun _ => none, fun _ _ => none, fun _ => 0⟩

end CServer.Logic.Drops
