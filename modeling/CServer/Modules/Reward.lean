import CServer.Lib.Memory
import CServer.Lib.Exec

/-! # `world/modules/reward.c`: rewards that are granted or kept

A reward is created, filled and committed; what cannot be granted then is stored, and is tried again by
`reward_update` or `reward_receive`. A grant is a call of another module, or several of them, that may fail: `grants e i`
is whether the one for unit `i` of entry `e` succeeds. `packages` are the packages that are configured.
-/
namespace CServer.Modules
open CServer.Lib Function

/-! ## Granting one entry -/

inductive RewardType
  | item
  | hero
  | equip
  | itemPackage
  | inscription
  | heroItem
  | buff
  | drop
  | other

def rewardType : ℕ → RewardType
  | 41 => .item
  | 42 => .hero
  | 43 => .equip
  | 44 => .itemPackage
  | 45 => .inscription
  | 90 => .heroItem
  | 93 => .buff
  | 94 => .drop
  | _ => .other

/-- `entry` is not in the source: the place of the entry among all that have been added. -/
structure RewardContent where
  entry : ℕ
  type : ℕ
  key : ℕ
  value : ℕ
  uid : ℕ
  deriving DecidableEq

def addEquips (grants : ℕ → Bool) : ℕ → ℕ → ℕ
  | 0, _ => 0
  | n + 1, i => if grants i then addEquips grants n (i + 1) + 1 else 0

def sendEach (grants : ℕ → Bool) : ℕ → ℕ → ℕ
  | 0, _ => 0
  | n + 1, i => sendEach grants n (i + 1) + if grants i then 1 else 0

variable (packages : ℕ → Bool)

variable (grants : ℕ → Bool)

variable (c : RewardContent)

def rewardAddOne : ℤ × ℕ :=
  if c.value = 0 then (0, 0)
  else
    match rewardType c.type with
    | .item => if grants 0 then (0, c.value) else (-1, 0)
    | .hero => if grants 0 then (0, 1) else (1, 0)
    | .equip => (0, addEquips grants c.value 0)
    | .inscription => (0, addEquips grants c.value 0)
    | .itemPackage => if packages c.key then (0, sendEach grants c.value 0) else (-1, 0)
    | .heroItem => if grants 0 then (0, c.value) else (-1, 0)
    | .buff => (0, if c.key ≠ 0 ∧ grants 0 then c.value else 0)
    | .drop => (0, if c.key ≠ 0 then sendEach grants c.value 0 else 0)
    | .other => (-1, 0)

/-! ## A reward -/

inductive RewardStatus
  | created
  /-- In the set of the player, or in the list for all if `pid` is 0. -/
  | kept (pid : ℕ)
  /-- In the database only. -/
  | stored (pid : ℕ)
  | freed

/-- `entries` and `granted` are not in the source: what has been added, and the units of each entry that have been granted. -/
structure RewardState where
  autorecv : Bool
  status : RewardStatus
  content : List RewardContent
  entries : List RewardContent
  granted : ℕ → ℕ

def rewardCreate (manual : Bool) : RewardState := ⟨!manual, .created, [], [], fun _ => 0⟩

inductive RewardAct
  /-- `inserted` is whether the entry of a committed reward is written to the database. -/
  | addContent (type key value uid : ℕ) (inserted : Bool)
  /-- `online` is whether the player is found in memory, `inserted` whether all that is left is written to the database. -/
  | commit (pid : ℕ) (online : Bool) (grants : ℕ → ℕ → Bool) (inserted : Bool)
  | load
  | update (grants : ℕ → ℕ → Bool)
  /-- The size of the array for what is received, if there is one. -/
  | receive (n : Option ℕ) (grants : ℕ → ℕ → Bool)

namespace RewardState
variable (packages : ℕ → Bool)

variable (s : RewardState)

def rewardAddContent (type key value uid : ℕ) : RewardState :=
  let c : RewardContent := ⟨s.entries.length, type, key, value, uid⟩
  { s with content := s.content ++ [c], entries := s.entries ++ [c] }

/-- The entries are tried one after another until `n` have been received; with `all`, none is taken out. -/
def receiveLoop (grants : ℕ → ℕ → Bool) (all : Bool) (n : Option ℕ) :
    ℕ → (ℕ → ℕ) → List RewardContent → List RewardContent × (ℕ → ℕ)
  | _, granted, [] => ([], granted)
  | done, granted, c :: cs =>
    if n.any (· ≤ done) then
      let r := receiveLoop grants all n done granted cs
      (c :: r.1, r.2)
    else
      let one := rewardAddOne packages (grants c.entry) c
      let granted := update granted c.entry (granted c.entry + one.2)
      if one.1 ≠ 0 then
        let r := receiveLoop grants all n done granted cs
        (c :: r.1, r.2)
      else
        let r := receiveLoop grants all n (done + 1) granted cs
        (if all then c :: r.1 else r.1, r.2)

def store (pid : ℕ) (online inserted : Bool) : ℤ × RewardState :=
  if inserted then (0, { s with status := if online ∨ pid = 0 then .kept pid else .stored pid })
  else (-1, { s with status := .freed, content := [] })

def rewardCommit (pid : ℕ) (online : Bool) (grants : ℕ → ℕ → Bool) (inserted : Bool) :
    ℤ × RewardState :=
  let online := pid ≠ 0 ∧ online
  if s.autorecv ∧ online then
    let r := receiveLoop packages grants false none 0 s.granted s.content
    let s := { s with content := r.1, granted := r.2 }
    if s.content = [] then (0, { s with status := .freed }) else s.store pid online inserted
  else s.store pid online inserted

def rewardReceive (pid : ℕ) (n : Option ℕ) (grants : ℕ → ℕ → Bool) : RewardState :=
  let r := receiveLoop packages grants (pid = 0) n 0 s.granted s.content
  let s := { s with content := r.1, granted := r.2 }
  if pid ≠ 0 ∧ s.content = [] then { s with status := .freed } else s

/-- A reward that is not in memory any more is not used. -/
def step : RewardAct → Except Fault RewardState
  | .addContent type key value uid inserted =>
    if type = 0 ∨ key = 0 ∨ value = 0 then .ok s
    else
      match s.status with
      | .created => .ok (s.rewardAddContent type key value uid)
      | .kept _ => .ok (if inserted then s.rewardAddContent type key value uid else s)
      | _ => .error .outOfBounds
  | .commit pid online grants inserted =>
    match s.status with
    | .created => .ok (s.rewardCommit packages pid online grants inserted).2
    | .kept _ => .ok s
    | _ => .error .outOfBounds
  | .load =>
    match s.status with
    | .stored pid => .ok { s with status := .kept pid }
    | _ => .ok s
  | .update grants =>
    match s.status with
    | .kept pid => .ok (if s.autorecv ∧ pid ≠ 0 then s.rewardReceive packages pid none grants else s)
    | _ => .ok s
  | .receive n grants =>
    match s.status with
    | .kept pid => .ok (s.rewardReceive packages pid n grants)
    | _ => .ok s

/-! ## Granted once or kept -/

def units (e : ℕ) (cs : List RewardContent) : ℕ := (cs.map fun c => if c.entry = e then c.value else 0).sum

/-- Of each entry, each unit has been granted once or is still kept. -/
def Conserved : Prop := ∀ e, s.granted e + units e s.content = units e s.entries

end RewardState

/-- The one grant of the entry fails, and nothing of it is granted. -/
def Refused : Prop :=
  c.value ≠ 0 ∧
    match rewardType c.type with
    | .item => grants 0 = false
    | .hero => grants 0 = false
    | .heroItem => grants 0 = false
    | .itemPackage => packages c.key = false
    | .other => True
    | _ => False

instance    : Decidable (Refused packages grants c) := by
  unfold Refused
  cases rewardType c.type <;> infer_instance

def Whole : Prop :=
  match rewardType c.type with
  | .hero => grants 0 = true → c.value ≤ 1
  | .equip => ∀ i < c.value, grants i = true
  | .inscription => ∀ i < c.value, grants i = true
  | .itemPackage => packages c.key = true → ∀ i < c.value, grants i = true
  | .buff => c.value ≠ 0 → c.key ≠ 0 ∧ grants 0 = true
  | .drop => c.value ≠ 0 → c.key ≠ 0 ∧ ∀ i < c.value, grants i = true
  | _ => True

instance    : Decidable (Whole packages grants c) := by
  unfold Whole
  cases rewardType c.type <;> infer_instance

section Units
variable {packages : ℕ → Bool} {grants : ℕ → Bool} {c : RewardContent}

theorem addEquips_all (n : ℕ) : ∀ i, (∀ j < n, grants (i + j) = true) → addEquips grants n i = n := by
  induction n with
  | zero => exact fun _ _ => rfl
  | succ n ih =>
    intro i h
    have hrest : ∀ j < n, grants (i + 1 + j) = true := by
      intro j hj
      rw [Nat.add_assoc, Nat.add_comm 1 j]
      exact h (j + 1) (Nat.succ_lt_succ hj)
    have hfirst : grants i = true := h 0 (Nat.succ_pos n)
    rw [addEquips, if_pos hfirst, ih (i + 1) hrest]

theorem sendEach_all (n : ℕ) : ∀ i, (∀ j < n, grants (i + j) = true) → sendEach grants n i = n := by
  induction n with
  | zero => exact fun _ _ => rfl
  | succ n ih =>
    intro i h
    have hrest : ∀ j < n, grants (i + 1 + j) = true := by
      intro j hj
      rw [Nat.add_assoc, Nat.add_comm 1 j]
      exact h (j + 1) (Nat.succ_lt_succ hj)
    have hfirst : grants i = true := h 0 (Nat.succ_pos n)
    rw [sendEach, if_pos hfirst, ih (i + 1) hrest]

theorem rewardAddOne_whole (h : Whole packages grants c) :
    (Refused packages grants c ∧ (rewardAddOne packages grants c).1 ≠ 0 ∧ (rewardAddOne packages grants c).2 = 0) ∨
      ¬ Refused packages grants c ∧ rewardAddOne packages grants c = (0, c.value) := by
  have hall : (∀ i < c.value, grants i = true) → ∀ j < c.value, grants (0 + j) = true := by
    intro hi j hj
    rw [Nat.zero_add]
    exact hi j hj
  unfold rewardAddOne Refused
  unfold Whole at h
  by_cases hv : c.value = 0
  · rw [if_pos hv, hv]
    exact .inr ⟨fun hr => hr.1 rfl, rfl⟩
  · rw [if_neg hv]
    cases ht : rewardType c.type with
    | item => cases hg : grants 0 <;> simp [hv]
    | heroItem => cases hg : grants 0 <;> simp [hv]
    | hero =>
      simp only [ht] at h
      cases hg : grants 0 with
      | false => simp [hv]
      | true =>
        have hone : c.value = 1 := by
          have := h hg
          omega
        simp [hone]
    | equip =>
      simp only [ht] at h
      simp [addEquips_all c.value 0 (hall h)]
    | inscription =>
      simp only [ht] at h
      simp [addEquips_all c.value 0 (hall h)]
    | itemPackage =>
      simp only [ht] at h
      cases hp : packages c.key with
      | false => simp [hv]
      | true => simp [sendEach_all c.value 0 (hall (h hp))]
    | buff =>
      simp only [ht] at h
      simp [h hv]
    | drop =>
      simp only [ht] at h
      simp [(h hv).1, sendEach_all c.value 0 (hall (h hv).2)]
    | other => simp [hv]

theorem rewardAddOne_refused (h : Refused packages grants c) :
    (rewardAddOne packages grants c).1 ≠ 0 ∧ (rewardAddOne packages grants c).2 = 0 := by
  unfold Refused at h
  unfold rewardAddOne
  rw [if_neg h.1]
  have hr := h.2
  cases ht : rewardType c.type <;> simp_all

end Units

namespace RewardState
variable {packages : ℕ → Bool} {s : RewardState} {grants : ℕ → ℕ → Bool} {n : Option ℕ}

def AllWhole (packages : ℕ → Bool) (grants : ℕ → ℕ → Bool) (n : Option ℕ) : ℕ → List RewardContent → Prop
  | _, [] => True
  | done, c :: cs =>
    n.any (· ≤ done) = true ∨ Whole packages (grants c.entry) c ∧
      AllWhole packages grants n (if Refused packages (grants c.entry) c then done else done + 1) cs

instance decidableAllWhole (packages : ℕ → Bool) (grants : ℕ → ℕ → Bool) (n : Option ℕ) :
    ∀ done cs, Decidable (AllWhole packages grants n done cs)
  | _, [] => .isTrue trivial
  | done, c :: cs =>
    have := decidableAllWhole packages grants n (if Refused packages (grants c.entry) c then done else done + 1) cs
    inferInstanceAs (Decidable (_ ∨ _ ∧ _))

/-- What is not whole is lost or granted and kept: an entry that is granted in part, an entry that cannot be stored, an entry
of a reward for all. -/
def GrantsWhole (packages : ℕ → Bool) (s : RewardState) : RewardAct → Prop
  | .commit pid online grants inserted =>
    match s.status with
    | .created =>
      if s.autorecv = true ∧ pid ≠ 0 ∧ online = true then
        AllWhole packages grants none 0 s.content ∧
          ((∃ c ∈ s.content, Refused packages (grants c.entry) c) → inserted = true)
      else s.content ≠ [] → inserted = true
    | _ => True
  | .update grants =>
    match s.status with
    | .kept pid => s.autorecv = true ∧ pid ≠ 0 → AllWhole packages grants none 0 s.content
    | _ => True
  | .receive n grants =>
    match s.status with
    | .kept pid =>
      if pid = 0 then ∀ c ∈ s.content, Refused packages (grants c.entry) c else AllWhole packages grants n 0 s.content
    | _ => True
  | _ => True

instance (packages : ℕ → Bool) (s : RewardState) (a : RewardAct) : Decidable (GrantsWhole packages s a) := by
  unfold GrantsWhole
  cases a <;> cases s.status <;> infer_instance

theorem units_cons (e : ℕ) (c : RewardContent) (cs : List RewardContent) :
    units e (c :: cs) = (if c.entry = e then c.value else 0) + units e cs := List.sum_cons

theorem units_append (e : ℕ) (cs ds : List RewardContent) : units e (cs ++ ds) = units e cs + units e ds := by
  unfold units
  rw [List.map_append, List.sum_append]

theorem not_reached {done : ℕ} : ¬ (none : Option ℕ).any (· ≤ done) = true := Bool.false_ne_true

theorem receiveLoop_reached {all : Bool} {done : ℕ} (h : n.any (· ≤ done) = true) (cs : List RewardContent) :
    ∀ granted, receiveLoop packages grants all n done granted cs = (cs, granted) := by
  induction cs with
  | nil => exact fun _ => rfl
  | cons c cs ih =>
    intro granted
    rw [receiveLoop, if_pos h, ih granted]

theorem receiveLoop_refused {all : Bool} {done : ℕ} {granted : ℕ → ℕ} {c : RewardContent} (cs : List RewardContent)
    (hn : ¬ n.any (· ≤ done) = true) (hone : (rewardAddOne packages (grants c.entry) c).1 ≠ 0)
    (hnone : (rewardAddOne packages (grants c.entry) c).2 = 0) :
    receiveLoop packages grants all n done granted (c :: cs) =
      (c :: (receiveLoop packages grants all n done granted cs).1,
        (receiveLoop packages grants all n done granted cs).2) := by
  rw [receiveLoop, if_neg hn]
  simp only [if_pos hone, hnone, Nat.add_zero, update_eq_self]

theorem receiveLoop_granted {done : ℕ} {granted : ℕ → ℕ} {c : RewardContent} (cs : List RewardContent)
    (hn : ¬ n.any (· ≤ done) = true) (hone : rewardAddOne packages (grants c.entry) c = (0, c.value)) :
    receiveLoop packages grants false n done granted (c :: cs) =
      receiveLoop packages grants false n (done + 1)
        (update granted c.entry (granted c.entry + c.value)) cs := by
  rw [receiveLoop, if_neg hn]
  simp [hone]

variable (cs : List RewardContent)

theorem receiveLoop_units : ∀ (done : ℕ) (granted : ℕ → ℕ), AllWhole packages grants n done cs →
    ∀ e, (receiveLoop packages grants false n done granted cs).2 e +
      units e (receiveLoop packages grants false n done granted cs).1 = granted e + units e cs := by
  induction cs with
  | nil => exact fun _ _ _ _ => rfl
  | cons c cs ih =>
    intro done granted h e
    by_cases hn : n.any (· ≤ done) = true
    · rw [receiveLoop_reached hn]
    · obtain ⟨hwhole, hrest⟩ := h.resolve_left hn
      cases rewardAddOne_whole hwhole with
      | inl hrefused =>
        obtain ⟨hr, hone, hnone⟩ := hrefused
        rw [if_pos hr] at hrest
        have := ih done granted hrest e
        rw [receiveLoop_refused cs hn hone hnone]
        simp only [units_cons]
        omega
      | inr hgranted =>
        obtain ⟨hr, hone⟩ := hgranted
        rw [if_neg hr] at hrest
        rw [receiveLoop_granted cs hn hone, ih (done + 1) _ hrest e, units_cons]
        by_cases he : c.entry = e
        · subst he
          rw [update_self, if_pos rfl, Nat.add_assoc]
        · rw [update_of_ne (Ne.symm he), if_neg he, Nat.zero_add]

theorem receiveLoop_nil : ∀ (done : ℕ) (granted : ℕ → ℕ),
    AllWhole packages grants none done cs → (¬ ∃ c ∈ cs, Refused packages (grants c.entry) c) →
      (receiveLoop packages grants false none done granted cs).1 = [] := by
  induction cs with
  | nil => exact fun _ _ _ _ => rfl
  | cons c cs ih =>
    intro done granted h hno
    have hn : ¬ (none : Option ℕ).any (· ≤ done) = true := not_reached
    have hc : ¬ Refused packages (grants c.entry) c := fun hr => hno ⟨c, .head _, hr⟩
    obtain ⟨hwhole, hrest⟩ := h.resolve_left hn
    rw [if_neg hc] at hrest
    have hone := (rewardAddOne_whole hwhole).resolve_left fun hr => hc hr.1
    rw [receiveLoop_granted cs hn hone.2]
    exact ih (done + 1) _ hrest fun hr => hno (hr.imp fun _ hd => ⟨.tail _ hd.1, hd.2⟩)

theorem receiveLoop_all_refused : ∀ (done : ℕ) (granted : ℕ → ℕ),
    (∀ c ∈ cs, Refused packages (grants c.entry) c) →
      receiveLoop packages grants true n done granted cs = (cs, granted) := by
  induction cs with
  | nil => exact fun _ _ _ => rfl
  | cons c cs ih =>
    intro done granted h
    by_cases hn : n.any (· ≤ done) = true
    · exact receiveLoop_reached hn _ granted
    · obtain ⟨hone, hnone⟩ := rewardAddOne_refused (h c (.head _))
      rw [receiveLoop_refused cs hn hone hnone, ih done granted fun d hd => h d (.tail _ hd)]

/-! ## Commits that fail -/

theorem receiveLoop_entry {e : ℕ} (cs : List RewardContent) :
    ∀ (done : ℕ) (granted : ℕ → ℕ),
      (∀ c ∈ cs, c.entry = e → (rewardAddOne packages (grants c.entry) c).2 = 0) →
        (receiveLoop packages grants false none done granted cs).2 e = granted e := by
  induction cs with
  | nil => exact fun _ _ _ => rfl
  | cons c cs ih =>
    intro done granted h
    have hrest : ∀ d ∈ cs, d.entry = e → (rewardAddOne packages (grants d.entry) d).2 = 0 :=
      fun d hd => h d (List.mem_cons_of_mem c hd)
    have hupdate : update granted c.entry
        (granted c.entry + (rewardAddOne packages (grants c.entry) c).2) e = granted e := by
      by_cases he : c.entry = e
      · rw [h c List.mem_cons_self he, ← he, update_self, Nat.add_zero]
      · rw [update_of_ne (Ne.symm he)]
    rw [receiveLoop, if_neg not_reached]
    simp only
    split
    · exact (ih done _ hrest).trans hupdate
    · exact (ih (done + 1) _ hrest).trans hupdate

theorem receiveLoop_done :
    ∀ (done : ℕ) (granted : ℕ → ℕ), (∀ c ∈ cs, (rewardAddOne packages (grants c.entry) c).1 = 0) →
      (receiveLoop packages grants false none done granted cs).1 = [] := by
  induction cs with
  | nil => exact fun _ _ _ => rfl
  | cons c cs ih =>
    intro done granted h
    rw [receiveLoop, if_neg not_reached]
    simp only
    rw [if_neg (not_not.mpr (h c List.mem_cons_self))]
    exact ih (done + 1) _ fun d hd => h d (List.mem_cons_of_mem c hd)

theorem store_failed {r : RewardState} {pid : ℕ} {online inserted : Bool} (h : (r.store pid online inserted).1 ≠ 0) :
    inserted = false ∧ (r.store pid online inserted).2.content = [] ∧
      (r.store pid online inserted).2.granted = r.granted := by
  unfold store at h ⊢
  cases inserted with
  | true => exact absurd rfl h
  | false => exact ⟨rfl, rfl, rfl⟩

/-! ## One step -/

theorem conserved_store (h : Conserved s) (pid : ℕ) (online : Bool) {inserted : Bool}
    (hin : s.content ≠ [] → inserted = true) : Conserved (s.store pid online inserted).2 := by
  unfold store
  cases inserted with
  | true => exact h
  | false =>
    have hnil : s.content = [] := by
      by_contra hne
      exact Bool.false_ne_true (hin hne)
    intro e
    have he := h e
    rw [hnil] at he
    exact he

theorem conserved_addContent (h : Conserved s) (type key value uid : ℕ) :
    Conserved (s.rewardAddContent type key value uid) := by
  intro e
  have he := h e
  change s.granted e + units e (s.content ++ [_]) = units e (s.entries ++ [_])
  rw [units_append, units_append]
  omega

theorem conserved_loop (h : Conserved s) {done : ℕ} (hwhole : AllWhole packages grants n done s.content)
    (status : RewardStatus) :
    Conserved { s with
      status := status
      content := (receiveLoop packages grants false n done s.granted s.content).1
      granted := (receiveLoop packages grants false n done s.granted s.content).2 } := by
  intro e
  exact (receiveLoop_units s.content done s.granted hwhole e).trans (h e)

theorem conserved_commit (h : Conserved s) {pid : ℕ} {online inserted : Bool} (hs : s.status = .created)
    (hok : GrantsWhole packages s (.commit pid online grants inserted)) :
    Conserved (s.rewardCommit packages pid online grants inserted).2 := by
  unfold GrantsWhole at hok
  simp only [hs] at hok
  unfold rewardCommit
  by_cases hc : s.autorecv = true ∧ pid ≠ 0 ∧ online = true
  · rw [if_pos hc] at hok
    obtain ⟨hwhole, hin⟩ := hok
    have hloop := conserved_loop h hwhole
    rw [if_pos hc]
    simp only
    split
    · exact hloop .freed
    · refine conserved_store (hloop s.status) pid _ fun hne => hin ?_
      by_contra hno
      exact hne (receiveLoop_nil s.content 0 s.granted hwhole hno)
  · rw [if_neg hc] at hok
    rw [if_neg hc]
    exact conserved_store h pid _ hok

theorem conserved_receive (h : Conserved s) {pid : ℕ}
    (hok : if pid = 0 then ∀ c ∈ s.content, Refused packages (grants c.entry) c
      else AllWhole packages grants n 0 s.content) :
    Conserved (s.rewardReceive packages pid n grants) := by
  unfold rewardReceive
  by_cases hp : pid = 0
  · rw [if_pos hp] at hok
    simp only [decide_eq_true hp, receiveLoop_all_refused s.content 0 s.granted hok]
    rw [if_neg fun hc => hc.1 hp]
    exact h
  · rw [if_neg hp] at hok
    simp only [decide_eq_false hp]
    split
    · exact conserved_loop h hok .freed
    · exact conserved_loop h hok s.status

theorem step_conserved (s : RewardState) (a : RewardAct) (s' : RewardState) (h : Conserved s)
    (hok : GrantsWhole packages s a) (hstep : step packages s a = .ok s') : Conserved s' := by
  cases a with
  | addContent type key value uid inserted =>
    rw [step] at hstep
    split at hstep
    · exact Except.ok.inj hstep ▸ h
    · split at hstep
      · exact Except.ok.inj hstep ▸ conserved_addContent h type key value uid
      · cases inserted with
        | false => exact Except.ok.inj hstep ▸ h
        | true => exact Except.ok.inj hstep ▸ conserved_addContent h type key value uid
      · nomatch hstep
  | commit pid online grants inserted =>
    rw [step] at hstep
    split at hstep
    case h_1 hs => exact Except.ok.inj hstep ▸ conserved_commit h hs hok
    case h_2 => exact Except.ok.inj hstep ▸ h
    case h_3 => nomatch hstep
  | load =>
    rw [step] at hstep
    split at hstep
    · exact Except.ok.inj hstep ▸ h
    · exact Except.ok.inj hstep ▸ h
  | update grants =>
    rw [step] at hstep
    split at hstep
    case h_1 pid hs =>
      unfold GrantsWhole at hok
      simp only [hs] at hok
      by_cases hc : s.autorecv = true ∧ pid ≠ 0
      · rw [if_pos hc] at hstep
        exact Except.ok.inj hstep ▸ conserved_receive h (by rw [if_neg hc.2]; exact hok hc)
      · rw [if_neg hc] at hstep
        exact Except.ok.inj hstep ▸ h
    case h_2 => exact Except.ok.inj hstep ▸ h
  | receive n grants =>
    rw [step] at hstep
    split at hstep
    case h_1 pid hs =>
      unfold GrantsWhole at hok
      simp only [hs] at hok
      exact Except.ok.inj hstep ▸ conserved_receive h hok
    case h_2 => exact Except.ok.inj hstep ▸ h

/-! ## A whole run -/

theorem conserved_create (manual : Bool) : Conserved (rewardCreate manual) := fun _ => rfl

/-- In a run of which each grant is of a whole entry or is refused, each unit of each entry is granted once or still kept. -/
theorem rewards_granted_once (packages : ℕ → Bool) (manual : Bool) (acts : List RewardAct)
    (h : Along (step packages) (GrantsWhole packages) (rewardCreate manual) acts) :
    Throughout (step packages) Conserved (rewardCreate manual) acts :=
  run_throughout (fun _ hs => hs) step_conserved acts _ (conserved_create manual) h

theorem rewards_granted_once_retried :
    Throughout (step fun _ => true) Conserved (rewardCreate false)
      [.addContent 41 90001 7 0 true, .addContent 42 11000 1 0 true, .commit 5 true (fun e _ => e == 0) true,
        .update fun _ _ => true] := by
  refine rewards_granted_once _ _ _ ?_
  decide +kernel

/-- An equip that is not configured is neither granted nor kept, and of two heroes one is added. -/
theorem units_lost :
    ¬ Throughout (step fun _ => true) Conserved (rewardCreate false)
        [.addContent 43 2001 1 0 true, .commit 5 true (fun _ _ => false) true] ∧
      ¬ Throughout (step fun _ => true) Conserved (rewardCreate false)
        [.addContent 42 11000 2 0 true, .commit 5 true (fun _ _ => true) true] := by
  have hequip : run (step fun _ => true) (rewardCreate false)
      [.addContent 43 2001 1 0 true, .commit 5 true (fun _ _ => false) true] =
      .ok ⟨true, .freed, [], [⟨0, 43, 2001, 1, 0⟩], update (fun _ => 0) 0 0⟩ := rfl
  have hhero : run (step fun _ => true) (rewardCreate false)
      [.addContent 42 11000 2 0 true, .commit 5 true (fun _ _ => true) true] =
      .ok ⟨true, .freed, [], [⟨0, 42, 11000, 2, 0⟩], update (fun _ => 0) 0 1⟩ := rfl
  constructor
  · intro h
    have hlost := h.last hequip 0
    revert hlost
    decide
  · intro h
    have hlost := h.last hhero 0
    revert hlost
    decide

end RewardState
end CServer.Modules
