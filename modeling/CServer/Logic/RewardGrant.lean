import CServer.Lib.Fuel
import CServer.Modules.Item
import CServer.Modules.Reward

/-! # `world/modules/reward.c`, `world/logic/aL.c`: what granting a reward goes on to

An entry may be a package, whose entries are granted in turn, or a drop, of which what is drawn is committed as a
reward and granted in turn. The depth that `aL_open_item_package` checks is one of its caller's: `reward_add_one` sets it to
zero before each package.

What other modules do is an input, as is what is drawn: `grant` is what a module makes of an entry, with the uuid of the
object if it is one, `given` whether a hero of the call gets what is drawn, `online` whether the player is found in memory
when a reward is committed. `mayDraw` is what the tables of drops allow to be drawn. A drop is sent with `send_reward`.
-/
namespace CServer.Logic
open CServer.Lib CServer.Modules List

/-! ## The code -/

/-- `struct RewardContent`; the members are unsigned. -/
structure Content where
  type : ℕ
  key : ℕ
  value : ℕ
  uid : ℕ

structure Draw where
  type : ℤ
  id : ℤ
  value : ℤ

/-- What a drop comes to: rows of its configuration, or rows of the configurations of each group that items are consumed for. -/
inductive DropOutcome
  | rows (draws : List Draw)
  | withItem (groups : List (List Draw))

structure GrantTables where
  packages : ℤ → Option (List (ℤ × ℤ × ℤ))
  mayDraw : ℤ → DropOutcome → Prop
  some_draw : ∀ id, ∃ o, mayDraw id o

/-- Where a value is written to the record of what is granted: by `append_reward_record` with a uuid, or by `append_rewards_`.
`granted` is not in the source: whether what is recorded has been granted. -/
inductive GrantEvent
  | record (type id value : ℤ) (uuid : ℕ) (granted : Bool)
  | rewards (type id value : ℤ) (granted : Bool)

structure GrantEnv (t : GrantTables) where
  grant : ℕ → Content → Option ℕ
  given : ℕ → Draw → Bool
  online : ℕ → Bool
  drop : ℕ → ℤ → DropOutcome
  drawn : ∀ time id, t.mayDraw id (drop time id)

structure GrantTrace where
  time : ℕ
  events : List GrantEvent

namespace GrantTrace

def ask (tr : GrantTrace) : GrantTrace := { tr with time := tr.time + 1 }

def add (tr : GrantTrace) (e : GrantEvent) : GrantTrace := { tr with events := tr.events ++ [e] }

end GrantTrace

def addContentTo (contents : List Content) (d : Draw) : List Content :=
  if toUnsigned d.type = 0 ∨ toUnsigned d.id = 0 ∨ toUnsigned d.value = 0 then contents
  else contents ++ [⟨toUnsigned d.type, toUnsigned d.id, toUnsigned d.value, 0⟩]

/-- The entry of a package, with its members cut to `unsigned int`. -/
def packageContent (it : ℤ × ℤ × ℤ) : Content := ⟨toUnsigned it.1, toUnsigned it.2.1, toUnsigned it.2.2, 0⟩

def getItemPackageConfig (t : GrantTables) (id : ℤ) : Option (List (ℤ × ℤ × ℤ)) := if id = 0 then none else t.packages id

section Grant
variable {t : GrantTables} (env : GrantEnv t) (addOne : GrantTrace → Content → Except Fault (ℤ × GrantTrace))

/-- `reward_add_one`, of which nobody asks whether it has granted anything. -/
def addAnd (tr : GrantTrace) (c : Content) : Except Fault GrantTrace := do
  let r ← addOne tr c
  return r.2

def openItemPackage (tr : GrantTrace) (id : ℤ) (depth : ℕ) : Except Fault (ℤ × ℕ × GrantTrace) :=
  if depth ≥ 1 then .ok (0, depth, tr)
  else
    match getItemPackageConfig t id with
    | none => .ok (-1, depth + 1, tr)
    | some items => do
      let tr ← items.foldlM (fun tr it => addAnd addOne tr (packageContent it)) tr
      return (0, depth + 1, tr)

/-- The loop of `reward_add_one` over the packages of an entry; each begins at depth zero. -/
def openPackages (id : ℤ) : ℕ → GrantTrace → Except Fault (ℤ × GrantTrace)
  | 0, tr => .ok (0, tr)
  | n + 1, tr => do
    let r ← openItemPackage (t := t) addOne tr id 0
    if r.1 ≠ 0 then return (-1, r.2.2) else openPackages id n r.2.2

def addEquipEach (c : Content) : ℕ → GrantTrace → GrantTrace
  | 0, tr => tr
  | n + 1, tr =>
    match env.grant tr.time c with
    | none => tr.ask
    | some uuid => addEquipEach c n (tr.ask.add (.record (toInt c.type) (toInt c.key) 1 uuid true))

/-- `reward_commit`: what cannot be granted is stored, and not recorded again. -/
def commitContents (tr : GrantTrace) (contents : List Content) : Except Fault GrantTrace :=
  if env.online tr.time then contents.foldlM (addAnd addOne) tr.ask else .ok tr.ask

def addDraw (heroes : Bool) (acc : GrantTrace × List Content) (d : Draw) : GrantTrace × List Content :=
  if d.value > 0 then
    if d.type = 90 then
      (acc.1.ask.add (.rewards d.type d.id d.value (heroes && env.given acc.1.time d)), acc.2)
    else (acc.1, addContentTo acc.2 d)
  else acc

/-- A row of `aL_send_reward_by_drop_config`: the value is not looked at, and exp of the leading role is granted as the rest is. -/
def addDrawWithItem (heroes : Bool) (acc : GrantTrace × List Content) (d : Draw) : GrantTrace × List Content :=
  if d.type = 90 ∧ d.id ≠ 90000 then
    (acc.1.ask.add (.rewards d.type d.id d.value (heroes && env.given acc.1.time d)), acc.2)
  else (acc.1, addContentTo acc.2 d)

def sendByDropConfig (heroes : Bool) (tr : GrantTrace) (draws : List Draw) : Except Fault GrantTrace :=
  let acc := draws.foldl (addDrawWithItem env heroes) (tr, [])
  commitContents env addOne acc.1 acc.2

/-- `aL_send_drop_reward`. What has been drawn before is lost where a drop consumes items. -/
def sendDropReward (heroes : Bool) : GrantTrace → List Content → List ℤ → Except Fault GrantTrace
  | tr, contents, [] => commitContents env addOne tr contents
  | tr, contents, id :: drops =>
    if id = 0 then sendDropReward heroes tr contents drops
    else
      match env.drop tr.time id with
      | .rows draws =>
        let acc := draws.foldl (addDraw env heroes) (tr.ask, contents)
        sendDropReward heroes acc.1 acc.2 drops
      | .withItem groups => groups.foldlM (sendByDropConfig env addOne heroes) tr.ask

def sendDrops (id : ℤ) : ℕ → GrantTrace → Except Fault GrantTrace
  | 0, tr => .ok tr
  | n + 1, tr => do
    let tr ← sendDropReward env addOne false tr [] [id]
    sendDrops id n tr

def addOneBody (tr : GrantTrace) (c : Content) : Except Fault (ℤ × GrantTrace) :=
  if c.value = 0 then .ok (0, tr)
  else
    match rewardType c.type with
    | .item =>
      let granted := (env.grant tr.time c).isSome
      .ok (if granted then 0 else -1, tr.ask.add (.record (toInt c.type) (toInt c.key) (toInt c.value) 0 granted))
    | .hero =>
      match env.grant tr.time c with
      | none => .ok (1, tr.ask)
      | some uuid => .ok (0, tr.ask.add (.record (toInt c.type) (toInt c.key) (toInt c.value) uuid true))
    | .equip => .ok (0, addEquipEach env c c.value tr)
    | .inscription => .ok (0, addEquipEach env c c.value tr)
    | .itemPackage => openPackages (t := t) addOne (toInt c.key) c.value tr
    | .heroItem =>
      let granted := (env.grant tr.time c).isSome
      .ok (if granted then 0 else -1, tr.ask.add (.record (toInt c.type) (toInt c.key) (toInt c.value) 0 granted))
    | .buff =>
      if c.key ≠ 0 then .ok (0, tr.ask.add (.record (toInt c.type) (toInt c.key) (toInt c.value) 0 (env.grant tr.time c).isSome))
      else .ok (0, tr)
    | .drop =>
      if c.key ≠ 0 then do
        let tr ← sendDrops env addOne (toInt c.key) c.value tr
        return (0, tr)
      else .ok (0, tr)
    | .other => .ok (-1, tr)

end Grant

def rewardAddOne {t : GrantTables} (env : GrantEnv t) (calls : ℕ) (tr : GrantTrace) (c : Content) :
    Except Fault (ℤ × GrantTrace) := unroll (addOneBody env) calls tr c

/-! ## What an entry goes on to -/

def Commits (o : DropOutcome) (c : Content) : Prop :=
  match o with
  | .rows draws => ∃ d ∈ draws, (d.value > 0 ∧ d.type ≠ 90) ∧ c ∈ addContentTo [] d
  | .withItem groups => ∃ draws ∈ groups, ∃ d ∈ draws, ¬ (d.type = 90 ∧ d.id ≠ 90000) ∧ c ∈ addContentTo [] d

inductive Opens (t : GrantTables) : Content → Content → Prop
  | package (c : Content) (items : List (ℤ × ℤ × ℤ)) (it : ℤ × ℤ × ℤ) (hvalue : c.value ≠ 0)
      (htype : rewardType c.type = .itemPackage) (hitems : getItemPackageConfig t (toInt c.key) = some items)
      (hit : it ∈ items) : Opens t c (packageContent it)
  | drop (c : Content) (o : DropOutcome) (c' : Content) (hvalue : c.value ≠ 0) (htype : rewardType c.type = .drop)
      (hkey : c.key ≠ 0) (hid : toInt c.key ≠ 0) (ho : t.mayDraw (toInt c.key) o) (hc' : Commits o c') : Opens t c c'

/-- Each of the entries may be granted because of the one before, for ever. -/
def EndlessChain (t : GrantTables) (c : Content) : Prop :=
  ∃ chain : ℕ → Content, chain 0 = c ∧ ∀ n, Opens t (chain n) (chain (n + 1))

/-- Whatever the other modules do and whatever is drawn, `reward_add_one` returns. -/
def AlwaysReturns (t : GrantTables) (c : Content) : Prop :=
  ∀ (env : GrantEnv t) (tr : GrantTrace), ∃ calls r, rewardAddOne env calls tr c = .ok r

theorem mem_addContentTo {contents : List Content} {d : Draw} {c : Content} :
    c ∈ addContentTo contents d ↔ c ∈ contents ∨ c ∈ addContentTo [] d := by
  unfold addContentTo
  split
  · simp
  · simp

section Draws
variable {t : GrantTables} {env : GrantEnv t} {heroes : Bool} {c : Content}

theorem mem_rows (draws : List Draw) (acc : GrantTrace × List Content) :
    c ∈ (draws.foldl (addDraw env heroes) acc).2 ↔ c ∈ acc.2 ∨ Commits (.rows draws) c := by
  induction draws generalizing acc with
  | nil => simp [Commits]
  | cons d draws ih =>
    rw [foldl_cons, ih]
    unfold addDraw Commits
    by_cases hv : d.value > 0
    · by_cases ht : d.type = 90
      · simp [hv, ht]
      · simp only [hv, ht, if_true, if_false, @mem_addContentTo acc.2, mem_cons, exists_eq_or_imp, or_assoc,
          ne_eq, not_false_eq_true, and_self, true_and]
    · simp [hv]

theorem mem_withItem (draws : List Draw) (acc : GrantTrace × List Content) :
    c ∈ (draws.foldl (addDrawWithItem env heroes) acc).2 ↔ c ∈ acc.2 ∨ Commits (.withItem [draws]) c := by
  induction draws generalizing acc with
  | nil => simp [Commits]
  | cons d draws ih =>
    rw [foldl_cons, ih]
    unfold addDrawWithItem Commits
    by_cases h : d.type = 90 ∧ d.id ≠ 90000
    · simp [h]
    · simp only [h, if_false, @mem_addContentTo acc.2, mem_cons, exists_eq_or_imp, or_assoc, not_false_eq_true, true_and]

end Draws

/-! ## Where granting returns -/

section Returns
variable {t : GrantTables} {env : GrantEnv t} {F : ℕ → GrantTrace → Content → Except Fault (ℤ × GrantTrace)}
  (hF : ∀ tr c, Steady fun n => F n tr c)

include hF

variable (tr : GrantTrace)

theorem addAnd_steady (c : Content) : Steady fun n => addAnd (F n) tr c :=
  (hF tr c).bind fun _ => steady_const _

variable (id : ℤ)

theorem openItemPackage_steady (depth : ℕ) :
    Steady fun n => openItemPackage (t := t) (F n) tr id depth := by
  unfold openItemPackage
  split
  · exact steady_const _
  · split
    · exact steady_const _
    · next items _ =>
      exact (foldlM_steady (fun tr it => addAnd_steady hF tr (packageContent it)) items tr).bind fun _ => steady_const _

theorem openPackages_steady (k : ℕ) (tr : GrantTrace) : Steady fun n => openPackages (t := t) (F n) id k tr := by
  induction k generalizing tr with
  | zero => exact steady_const _
  | succ k ih =>
    apply (openItemPackage_steady hF tr id 0).bind
    intro r
    split
    · exact steady_const _
    · exact ih r.2.2

theorem commitContents_steady (contents : List Content) :
    Steady fun n => commitContents env (F n) tr contents := by
  unfold commitContents
  split
  · exact foldlM_steady (addAnd_steady hF) contents tr.ask
  · exact steady_const _

theorem sendDropReward_steady (heroes : Bool) (drops : List ℤ) (tr : GrantTrace) (contents : List Content) :
    Steady fun n => sendDropReward env (F n) heroes tr contents drops := by
  induction drops generalizing tr contents with
  | nil => exact commitContents_steady hF tr contents
  | cons id drops ih =>
    unfold sendDropReward
    split
    · exact ih tr contents
    · split
      · exact ih _ _
      · next groups _ =>
        exact foldlM_steady (fun tr draws => commitContents_steady hF _ _) groups tr.ask

theorem sendDrops_steady (k : ℕ) (tr : GrantTrace) : Steady fun n => sendDrops env (F n) id k tr := by
  induction k generalizing tr with
  | zero => exact steady_const _
  | succ k ih => exact (sendDropReward_steady hF false [id] tr []).bind ih

theorem addOneBody_steady (c : Content) : Steady fun n => addOneBody env (F n) tr c := by
  unfold addOneBody
  split
  · exact steady_const _
  · cases rewardType c.type with
    | itemPackage => exact openPackages_steady hF (toInt c.key) c.value tr
    | drop =>
      simp only
      split
      · exact (sendDrops_steady hF (toInt c.key) c.value tr).bind fun _ => steady_const _
      · exact steady_const _
    | _ => exact steady_const _

def EachReturns (F : ℕ → GrantTrace → Content → Except Fault (ℤ × GrantTrace)) (c : Content) : Prop :=
  ∀ tr, ∃ n r, F n tr c = .ok r

omit hF in
theorem addAnd_returns {c : Content} (h : EachReturns F c) (tr : GrantTrace) : ∃ n r, addAnd (F n) tr c = .ok r :=
  map_returns (h tr)

theorem openItemPackage_returns (depth : ℕ)
    (h : ∀ items, getItemPackageConfig t id = some items → ∀ it ∈ items, EachReturns F (packageContent it)) :
    ∃ n r, openItemPackage (t := t) (F n) tr id depth = .ok r := by
  unfold openItemPackage
  split
  · exact ⟨0, _, rfl⟩
  · cases hg : getItemPackageConfig t id with
    | none => exact ⟨0, _, rfl⟩
    | some items =>
      have hsteady : ∀ tr it, Steady fun n => addAnd (F n) tr (packageContent it) :=
        fun tr it => addAnd_steady hF tr (packageContent it)
      exact map_returns (foldlM_returns hsteady items (fun it hit => addAnd_returns (h items hg it hit)) tr)

theorem openPackages_returns (k : ℕ) (tr : GrantTrace)
    (h : ∀ items, getItemPackageConfig t id = some items → ∀ it ∈ items, EachReturns F (packageContent it)) :
    ∃ n r, openPackages (t := t) (F n) id k tr = .ok r := by
  induction k generalizing tr with
  | zero => exact ⟨0, _, rfl⟩
  | succ k ih =>
    apply bind_returns (openItemPackage_steady hF tr id 0)
    · intro r
      split
      · exact steady_const _
      · exact openPackages_steady hF id k r.2.2
    · exact openItemPackage_returns hF tr id 0 h
    · intro r
      split
      · exact ⟨0, _, rfl⟩
      · exact ih r.2.2

theorem commitContents_returns (contents : List Content) (h : ∀ c ∈ contents, EachReturns F c) :
    ∃ n r, commitContents env (F n) tr contents = .ok r := by
  unfold commitContents
  split
  · exact foldlM_returns (addAnd_steady hF) contents (fun c hc => addAnd_returns (h c hc)) tr.ask
  · exact ⟨0, _, rfl⟩

theorem sendDropReward_returns (tr : GrantTrace)
    (h : id ≠ 0 → ∀ o, t.mayDraw id o → ∀ c, Commits o c → EachReturns F c) :
    ∃ n r, sendDropReward env (F n) false tr [] [id] = .ok r := by
  unfold sendDropReward
  by_cases hid : id = 0
  · simp only [if_pos hid]
    exact commitContents_returns hF tr [] fun c hc => absurd hc not_mem_nil
  · simp only [if_neg hid]
    have hmay := env.drawn tr.time id
    cases ho : env.drop tr.time id with
    | rows draws =>
      rw [ho] at hmay
      apply commitContents_returns hF
      intro c hc
      cases (mem_rows draws (tr.ask, [])).mp hc with
      | inl hnil => exact absurd hnil not_mem_nil
      | inr hcommits => exact h hid _ hmay c hcommits
    | withItem groups =>
      rw [ho] at hmay
      refine foldlM_returns (fun tr draws => commitContents_steady hF _ _) groups ?_ tr.ask
      intro draws hdraws tr'
      apply commitContents_returns hF
      intro c hc
      cases (mem_withItem draws (tr', [])).mp hc with
      | inl hnil => exact absurd hnil not_mem_nil
      | inr hcommits =>
        obtain ⟨draws', hmem, hd⟩ := hcommits
        rw [mem_singleton.mp hmem] at hd
        exact h hid _ hmay c ⟨draws, hdraws, hd⟩

theorem sendDrops_returns (k : ℕ) (tr : GrantTrace)
    (h : id ≠ 0 → ∀ o, t.mayDraw id o → ∀ c, Commits o c → EachReturns F c) :
    ∃ n r, sendDrops env (F n) id k tr = .ok r := by
  induction k generalizing tr with
  | zero => exact ⟨0, _, rfl⟩
  | succ k ih =>
    exact bind_returns (sendDropReward_steady hF false [id] tr []) (sendDrops_steady hF id k)
      (sendDropReward_returns hF id tr h) ih

theorem addOneBody_returns (c : Content) (h : ∀ c', Opens t c c' → EachReturns F c') :
    EachReturns (fun n => addOneBody env (F n)) c := by
  intro tr
  simp only
  unfold addOneBody
  split
  case isTrue => exact ⟨0, _, rfl⟩
  case isFalse hvalue =>
    cases htype : rewardType c.type with
    | itemPackage =>
      refine openPackages_returns hF (toInt c.key) c.value tr ?_
      intro items hitems it hit
      exact h _ (.package c items it hvalue htype hitems hit)
    | drop =>
      simp only
      split
      case isTrue hkey =>
        apply map_returns
        refine sendDrops_returns hF (toInt c.key) c.value tr ?_
        intro hid o ho c' hc'
        exact h c' (.drop c o c' hvalue htype hkey hid ho hc')
      case isFalse => exact ⟨0, _, rfl⟩
    | hero =>
      simp only
      split
      · exact ⟨0, _, rfl⟩
      · exact ⟨0, _, rfl⟩
    | buff =>
      simp only
      split
      · exact ⟨0, _, rfl⟩
      · exact ⟨0, _, rfl⟩
    | _ => exact ⟨0, _, rfl⟩

end Returns

/-! ## Where it does not -/

section Endless
variable {t : GrantTables}

def Endless (t : GrantTables) (c : Content) : Prop := ¬ Acc (fun c' c => Opens t c c') c

theorem Endless.next {c : Content} (h : Endless t c) : ∃ c', Opens t c c' ∧ Endless t c' := by
  by_contra hno
  apply h
  constructor
  intro c' hc'
  by_contra hacc
  exact hno ⟨c', hc', hacc⟩

open Classical in
/-- What is drawn of a drop is something with which it goes on for ever, wherever that can be drawn. -/
noncomputable def worstDraw (t : GrantTables) (id : ℤ) : DropOutcome :=
  if h : ∃ o, t.mayDraw id o ∧ ∃ c, Commits o c ∧ Endless t c then h.choose else (t.some_draw id).choose

theorem worstDraw_may (id : ℤ) : t.mayDraw id (worstDraw t id) := by
  unfold worstDraw
  split
  case isTrue h => exact h.choose_spec.1
  case isFalse => exact (t.some_draw id).choose_spec

theorem worstDraw_endless {id : ℤ} {o : DropOutcome} {c : Content} (ho : t.mayDraw id o) (hc : Commits o c)
    (he : Endless t c) : ∃ c', Commits (worstDraw t id) c' ∧ Endless t c' := by
  have h : ∃ o, t.mayDraw id o ∧ ∃ c, Commits o c ∧ Endless t c := ⟨o, ho, c, hc, he⟩
  unfold worstDraw
  rw [dif_pos h]
  exact h.choose_spec.2

noncomputable def worstEnv (t : GrantTables) : GrantEnv t where
  grant := fun _ _ => none
  given := fun _ _ => false
  online := fun _ => true
  drop := fun _ id => worstDraw t id
  drawn := fun _ id => worstDraw_may id

variable {f : GrantTrace → Content → Except Fault (ℤ × GrantTrace)}

theorem addAnd_not_ok {c : Content} (h : ∀ tr r, f tr c ≠ .ok r) (tr tr' : GrantTrace) : addAnd f tr c ≠ .ok tr' := by
  intro hr
  obtain ⟨r, hr, _⟩ := bind_ok_iff.mp hr
  exact h tr r hr

theorem commitContents_not_ok {contents : List Content} {c : Content} (hc : c ∈ contents) (h : ∀ tr r, f tr c ≠ .ok r)
    (tr tr' : GrantTrace) : commitContents (worstEnv t) f tr contents ≠ .ok tr' :=
  foldlM_not_ok hc (addAnd_not_ok h) tr.ask tr'

theorem sendDropReward_not_ok {id : ℤ} {c : Content} (hid : id ≠ 0) (hc : Commits (worstDraw t id) c)
    (h : ∀ tr r, f tr c ≠ .ok r) (tr tr' : GrantTrace) : sendDropReward (worstEnv t) f false tr [] [id] ≠ .ok tr' := by
  have hdrop : (worstEnv t).drop tr.time id = worstDraw t id := rfl
  unfold sendDropReward
  rw [if_neg hid, hdrop]
  cases ho : worstDraw t id with
  | rows draws =>
    rw [ho] at hc
    exact commitContents_not_ok ((mem_rows draws (tr.ask, [])).mpr (.inr hc)) h _ tr'
  | withItem groups =>
    rw [ho] at hc
    obtain ⟨draws, hdraws, hd⟩ := hc
    refine foldlM_not_ok hdraws ?_ tr.ask tr'
    intro tr₁ tr₂
    have hcommits : Commits (.withItem [draws]) c := ⟨draws, mem_singleton.mpr rfl, hd⟩
    exact commitContents_not_ok ((mem_withItem draws (tr₁, [])).mpr (.inr hcommits)) h _ tr₂

theorem addOneBody_not_ok (h : ∀ c, Endless t c → ∀ tr r, f tr c ≠ .ok r) (c : Content) (hc : Endless t c)
    (tr : GrantTrace) (r : ℤ × GrantTrace) : addOneBody (worstEnv t) f tr c ≠ .ok r := by
  obtain ⟨c', hopens, hendless⟩ := hc.next
  intro hr
  unfold addOneBody at hr
  cases hopens with
  | package items it hvalue htype hitems hit =>
    rw [if_neg hvalue, htype] at hr
    obtain ⟨n, hn⟩ := Nat.exists_eq_succ_of_ne_zero hvalue
    simp only [hn] at hr
    unfold openPackages openItemPackage at hr
    simp only [hitems] at hr
    obtain ⟨_, hopen, _⟩ := bind_ok_iff.mp hr
    obtain ⟨tr', hitems', _⟩ := bind_ok_iff.mp hopen
    exact foldlM_not_ok hit (addAnd_not_ok (h _ hendless)) tr tr' hitems'
  | drop o _ hvalue htype hkey hid ho hc' =>
    rw [if_neg hvalue, htype] at hr
    simp only [if_pos hkey] at hr
    obtain ⟨n, hn⟩ := Nat.exists_eq_succ_of_ne_zero hvalue
    obtain ⟨c₁, hcommits, hendless₁⟩ := worstDraw_endless ho hc' hendless
    obtain ⟨tr₁, hdrops, _⟩ := bind_ok_iff.mp hr
    rw [hn] at hdrops
    obtain ⟨tr₂, hsend, _⟩ := bind_ok_iff.mp hdrops
    exact sendDropReward_not_ok hid hcommits (h c₁ hendless₁) tr tr₂ hsend

theorem Endless.not_always {c : Content} (h : Endless t c) : ¬ AlwaysReturns t c := by
  intro hreturns
  have hnot := not_returns (fun f hf => addOneBody_not_ok hf) h
  exact hnot ⟨0, []⟩ (hreturns (worstEnv t) ⟨0, []⟩)

end Endless

theorem endless_iff {t : GrantTables} {c : Content} : Endless t c ↔ EndlessChain t c :=
  not_acc_iff_exists_descending_chain

/-- Granting an entry returns, whatever is drawn, exactly when no endless chain begins with it. -/
theorem rewardAddOne_returns_iff (t : GrantTables) (c : Content) : AlwaysReturns t c ↔ ¬ EndlessChain t c := by
  rw [← endless_iff]
  constructor
  · intro hreturns hendless
    exact hendless.not_always hreturns
  · intro hacc env
    refine returns_of_acc (not_not.mp hacc) ?_
    intro c hc tr
    obtain ⟨n, r, hr⟩ := addOneBody_returns (unroll_steady fun F hF => addOneBody_steady hF) c hc tr
    exact ⟨n + 1, r, hr⟩

def selfPackage : GrantTables where
  packages := fun id => if id = 7 then some [(44, 7, 1)] else none
  mayDraw := fun _ o => o = .rows []
  some_draw := fun _ => ⟨.rows [], rfl⟩

theorem selfPackage_endless : ¬ AlwaysReturns selfPackage ⟨44, 7, 1, 0⟩ := by
  have hopens : Opens selfPackage ⟨44, 7, 1, 0⟩ ⟨44, 7, 1, 0⟩ :=
    .package ⟨44, 7, 1, 0⟩ [(44, 7, 1)] (44, 7, 1) (by decide) rfl rfl mem_cons_self
  exact (endless_iff.mpr ⟨fun _ => ⟨44, 7, 1, 0⟩, rfl, fun _ => hopens⟩).not_always

end CServer.Logic
