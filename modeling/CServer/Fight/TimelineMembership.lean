import CServer.Fight.TimelineTurns

/-! # `fight/battlefield/Timeline.lua`: every object is in one place

An object is in a queue, among the waiting ones of a wave, in the list of the dead or about to be added.
`Summon` without its `remove` flag adds an object that stays in its wave as well, and `NextWave` adds it
a second time.
-/
namespace CServer.Fight
open CServer.Lib Function
open List hiding lookup

def TimelineInstr.added : TimelineInstr → Option ℕ
  | .add obj _ => some obj
  | _ => none

/-- How often the objects of a list are about to be added. -/
def pending (is : List TimelineInstr) (obj : ℕ) : ℕ := (is.filterMap TimelineInstr.added).count obj

theorem pending_append (is is' : List TimelineInstr) (obj : ℕ) :
    pending (is ++ is') obj = pending is obj + pending is' obj := by
  rw [pending, filterMap_append, count_append]
  rfl

theorem pending_add (obj wave : ℕ) (is : List TimelineInstr) (x : ℕ) :
    pending (.add obj wave :: is) x = (if x = obj then 1 else 0) + pending is x := by
  change (obj :: is.filterMap TimelineInstr.added).count x = _
  rw [count_cons, TimelineArray.beq_one, Nat.add_comm]
  rfl

theorem pending_cons {i : TimelineInstr} (hi : i.added = none) (is : List TimelineInstr) (x : ℕ) :
    pending (i :: is) x = pending is x := by
  rw [pending, filterMap_cons_none hi]
  rfl

theorem pending_afterRet (is : List TimelineInstr) (x : ℕ) : pending (Timeline.afterRet is) x ≤ pending is x := by
  induction is with
  | nil => exact le_refl _
  | cons i is ih =>
    have hle : pending is x ≤ pending (i :: is) x := by
      rw [← singleton_append, pending_append]
      exact Nat.le_add_left _ _
    cases i with
    | ret => exact hle
    | _ => exact ih.trans hle

/-! ## The waves -/

namespace LuaTable

theorem count_unset (t : LuaTable (List ℕ)) (k x : ℕ) :
    ((t.unset k).flatMap Prod.snd).count x + ((t.get k).getD []).count x ≤ (t.flatMap Prod.snd).count x := by
  induction t with
  | nil => exact Nat.le_refl 0
  | cons p t ih =>
    unfold get unset lookup Lib.discard at ih ⊢
    by_cases hp : p.1 = k
    · rw [filter_cons_of_neg (by simp [hp]), List.find?_cons_of_pos (by simp [hp]), flatMap_cons,
        count_append]
      simp only [Option.map_some, Option.getD_some]
      omega
    · rw [filter_cons_of_pos (by simp [hp]), List.find?_cons_of_neg (by simp [hp]), flatMap_cons,
        flatMap_cons, count_append, count_append]
      omega

theorem count_set (t : LuaTable (List ℕ)) (k : ℕ) (v : List ℕ) (x : ℕ) :
    ((t.set k v).flatMap Prod.snd).count x + ((t.get k).getD []).count x ≤
      (t.flatMap Prod.snd).count x + v.count x := by
  have h := count_unset t k x
  rw [set, flatMap_cons, count_append]
  change v.count x + _ + _ ≤ _
  omega

end LuaTable

theorem count_eraseP {p : ℕ → Bool} {l : List ℕ} {obj : ℕ} (h : l.find? p = some obj) (x : ℕ) :
    (l.eraseP p).count x + (if x = obj then 1 else 0) = l.count x := by
  obtain ⟨hp, l₁, l₂, rfl, hnot⟩ := List.find?_eq_some_iff_append.mp h
  rw [eraseP_append_right _ (fun y hy => by simpa using hnot y hy), eraseP_cons_of_pos hp, count_append,
    count_append, count_cons, TimelineArray.beq_one, Nat.add_assoc]

namespace Timeline

/-- In how many places outside the queues an object is, and one for the queues if its `timeline` is set. -/
def spots (s : Timeline) (obj : ℕ) : ℕ :=
  (if s.timeline obj then 1 else 0) + (s.waves.flatMap Prod.snd).count obj + s.deadList.count obj + pending s.todo obj

def Unknown (s : Timeline) (obj : ℕ) : Prop :=
  s.timeline obj = false ∧ obj ∉ s.waves.flatMap Prod.snd ∧ obj ∉ s.deadList ∧ obj ∉ s.todo.filterMap TimelineInstr.added

instance (s : Timeline) (obj : ℕ) : Decidable (s.Unknown obj) := inferInstanceAs (Decidable (_ ∧ _))

theorem spots_unknown {s : Timeline} {obj : ℕ} (h : s.Unknown obj) : s.spots obj = 0 := by
  obtain ⟨htimeline, hwaves, hdead, hpending⟩ := h
  rw [spots, htimeline, count_eq_zero.mpr hwaves, count_eq_zero.mpr hdead, pending,
    count_eq_zero.mpr hpending]
  rfl

/-- A step that puts no object into a further place and fails no assertion of `Add` against it. -/
structure Keeps (s s' : Timeline) : Prop where
  spots : ∀ obj, s'.spots obj ≤ s.spots obj
  log : .failed .addedTwice ∈ s'.log → .failed .addedTwice ∈ s.log

section
variable {s s' s'' : Timeline} {obj : ℕ}

theorem Keeps.trans (h : s.Keeps s') (h' : s'.Keeps s'') : s.Keeps s'' :=
  ⟨fun obj => (h'.spots obj).trans (h.spots obj), fun hlog => h.log (h'.log hlog)⟩

theorem Keeps.via (s' : Timeline) (h : s.Keeps s') (h' : s'.Keeps s'') : s.Keeps s'' := h.trans h'

theorem Keeps.of_spots (es : List TimelineEvent) (hlog : s'.log = es ++ s.log) (hes : .failed .addedTwice ∉ es)
    (hspots : ∀ obj, s'.spots obj ≤ s.spots obj) : s.Keeps s' := by
  refine ⟨hspots, fun hmem => ?_⟩
  rw [hlog] at hmem
  exact (mem_append.mp hmem).resolve_left hes

def places (s : Timeline) : (ℕ → Bool) × LuaTable (List ℕ) × List ℕ := (s.timeline, s.waves, s.deadList)

theorem Keeps.same (h : s'.places = s.places) (es : List TimelineEvent) (hlog : s'.log = es ++ s.log)
    (hes : .failed .addedTwice ∉ es) (htodo : ∀ obj, pending s'.todo obj ≤ pending s.todo obj) : s.Keeps s' := by
  refine .of_spots es hlog hes fun obj => ?_
  simp only [places, Prod.mk.injEq] at h
  obtain ⟨ht, hw, hd⟩ := h
  rw [Timeline.spots, Timeline.spots, ht, hw, hd]
  exact Nat.add_le_add_left (htodo obj) _

theorem Keeps.refl (s : Timeline) : s.Keeps s := ⟨fun _ => le_refl _, id⟩

theorem Keeps.still (h : s'.places = s.places) (hlog : s'.log = s.log) (htodo : s'.todo = s.todo) : s.Keeps s' :=
  .same h [] hlog not_mem_nil fun _ => by rw [htodo]

theorem Keeps.noted {e : TimelineEvent} (h : s'.places = s.places) (hlog : s'.log = e :: s.log)
    (he : e ≠ .failed .addedTwice) (htodo : s'.todo = s.todo) : s.Keeps s' :=
  .same h [e] hlog (fun hmem => he (mem_singleton.mp hmem).symm) fun _ => by rw [htodo]

theorem Keeps.pushed (is : List TimelineInstr) (h : s'.places = s.places) (es : List TimelineEvent)
    (hlog : s'.log = es ++ s.log) (hes : .failed .addedTwice ∉ es) (htodo : s'.todo = is ++ s.todo)
    (his : is.filterMap TimelineInstr.added = []) : s.Keeps s' := by
  refine .same h es hlog hes fun obj => ?_
  rw [htodo, pending_append, pending, his, count_nil, Nat.zero_add]

theorem keeps_push (s : Timeline) {is : List TimelineInstr} (h : is.filterMap TimelineInstr.added = []) :
    s.Keeps (s.push is) := .pushed is rfl [] rfl not_mem_nil rfl h

theorem keeps_fail (s : Timeline) {e : TimelineError} (he : e ≠ .addedTwice) : s.Keeps (s.fail e) :=
  .same rfl [.failed e] rfl (fun hmem => he (TimelineEvent.failed.inj (mem_singleton.mp hmem)).symm)
    (pending_afterRet s.todo)

theorem keeps_bump (s : Timeline) (r : TickReason) : s.Keeps (s.bump r) := .noted rfl rfl nofun rfl

theorem keeps_note (s : Timeline) {e : TimelineEvent} (he : e ≠ .failed .addedTwice) : s.Keeps (s.note e) :=
  .noted rfl rfl he rfl

/-! ## The operations -/

section
variable (cfg : TimelineConfig)

theorem keeps_unitFinished (obj : ℕ) {rest : List TimelineInstr} (h : rest.filterMap TimelineInstr.added = []) :
    s.Keeps (s.unitFinished cfg obj rest) := by
  unfold unitFinished
  split
  · exact Keeps.via (s.finishCurrent cfg obj) (.noted rfl rfl nofun rfl) (keeps_push _ h)
  · split
    · exact Keeps.via (s.finishWaiting cfg obj) (.noted rfl rfl nofun rfl) (keeps_push _ h)
    · exact keeps_push s h

theorem keeps_unitSpeedChange (obj : ℕ) : s.Keeps (s.unitSpeedChange cfg obj) := by
  unfold unitSpeedChange
  split
  · exact .still rfl rfl rfl
  · split
    · exact .still rfl rfl rfl
    · exact .refl s

theorem keeps_unitWait (obj : ℕ) : s.Keeps (s.unitWait cfg obj) := by
  unfold unitWait
  simp only
  split
  · split
    · exact .still rfl rfl rfl
    · exact .still rfl rfl rfl
  · exact .still rfl rfl rfl

theorem keeps_unitRelive (obj : ℕ) : s.Keeps (s.unitRelive obj) := by
  unfold unitRelive
  split
  · rename_i hmem
    refine .of_spots [] rfl not_mem_nil fun x => ?_
    have hpos := count_pos_iff.mpr hmem
    have hdead : s.deadList.count x = (s.deadList.erase obj).count x + if x = obj then 1 else 0 :=
      count_taken x (by rw [count_erase, TimelineArray.beq_one]) fun hx => hx ▸ hpos
    change (if s.timeline x then 1 else 0) + (s.waves.flatMap Prod.snd).count x + (s.deadList.erase obj).count x +
      pending (.add obj s.wave :: .ret :: s.todo) x ≤ s.spots x
    rw [pending_add, pending_cons rfl, spots, hdead]
    omega
  · exact .refl s

theorem mem_findSummoned {id pos w : ℕ} {visit : List ℕ} (h : s.findSummoned cfg id pos visit = some (w, obj)) :
    ((s.waves.get w).getD []).find? (s.isSummoned cfg id pos) = some obj := by
  obtain ⟨w', -, hfound⟩ := List.exists_of_findSome?_eq_some h
  obtain ⟨obj', hobj, heq⟩ := Option.map_eq_some_iff.mp hfound
  obtain ⟨rfl, rfl⟩ := Prod.mk.inj heq
  exact hobj

theorem keeps_summon (id pos : ℕ) (visit : List ℕ) : s.Keeps (s.summon cfg id pos true visit) := by
  unfold summon
  split
  · exact .refl s
  · rename_i w obj hfound
    refine .of_spots [] rfl not_mem_nil fun x => ?_
    have hset := LuaTable.count_set s.waves w (((s.waves.get w).getD []).eraseP (s.isSummoned cfg id pos)) x
    have herase := count_eraseP (mem_findSummoned cfg hfound) x
    change (if s.timeline x then 1 else 0) + (List.flatMap Prod.snd (s.waves.set w _)).count x + s.deadList.count x +
      pending (.add obj s.wave :: .ret :: s.todo) x ≤ s.spots x
    rw [pending_add, pending_cons rfl, spots]
    omega

/-! ## Adding and removing -/

theorem spots_timeline (hnew : s.timeline obj = false) (x : ℕ) :
    (if update s.timeline obj true x then 1 else 0) = (if s.timeline x then 1 else 0) + if x = obj then 1 else 0 := by
  by_cases hx : x = obj
  · rw [hx, update_self, hnew, if_pos rfl, if_pos rfl, if_neg Bool.false_ne_true]
  · rw [update_of_ne hx, if_neg hx, Nat.add_zero]

theorem spots_enterTimeline (hnew : s.timeline obj = false) (x : ℕ) :
    (s.enterTimeline cfg obj).spots x = s.spots x + if x = obj then 1 else 0 := by
  have hqueue : (s.enqueue cfg obj).spots x = s.spots x + if x = obj then 1 else 0 := by
    change (if update s.timeline obj true x then 1 else 0) + (s.waves.flatMap Prod.snd).count x +
      s.deadList.count x + pending s.todo x = _
    rw [spots_timeline hnew, spots]
    omega
  unfold enterTimeline
  simp only
  split
  · change (if update s.timeline obj true x then 1 else 0) + (s.waves.flatMap Prod.snd).count x +
      s.deadList.count x + pending (.callback :: s.todo) x = _
    rw [pending_cons rfl]
    exact hqueue
  · exact hqueue

theorem spots_add (hnew : s.timeline obj = false) (wave x : ℕ) :
    (s.add cfg obj wave).spots x ≤ s.spots x + if x = obj then 1 else 0 := by
  unfold add
  split
  · exact ((keeps_fail s (e := .noSide) nofun).spots x).trans (Nat.le_add_right _ _)
  · rw [if_neg (by simp [hnew])]
    split
    · exact ((keeps_fail s (e := .wrongWave) nofun).spots x).trans (Nat.le_add_right _ _)
    · simp only
      split
      · exact (spots_enterTimeline (s := { s with lock := _, winner := none }) cfg hnew x).le
      · have h := LuaTable.count_set s.waves wave ((s.waves.get wave).getD [] ++ [obj]) x
        rw [count_append, count_singleton, TimelineArray.beq_one] at h
        change (if s.timeline x then 1 else 0) + (List.flatMap Prod.snd (s.waves.set wave _)).count x +
          s.deadList.count x + pending s.todo x ≤ _
        rw [spots]
        omega

theorem log_add (hnew : s.timeline obj = false) (wave : ℕ) :
    .failed .addedTwice ∈ (s.add cfg obj wave).log → .failed .addedTwice ∈ s.log := by
  unfold add
  split
  · exact (keeps_fail s (e := .noSide) nofun).log
  · rw [if_neg (by simp [hnew])]
    split
    · exact (keeps_fail s (e := .wrongWave) nofun).log
    · simp only
      split
      · intro hmem
        have hlog : (enterTimeline cfg { s with lock := update s.lock obj false, winner := none } obj).log =
            .enter obj :: s.log := by
          unfold enterTimeline
          simp only
          split
          · rfl
          · rfl
        rw [hlog] at hmem
        exact (mem_cons.mp hmem).resolve_left nofun
      · exact id

theorem spots_leave (forceRemove : Bool) (x : ℕ) :
    (s.leave cfg obj forceRemove).spots x ≤ s.spots x + if x = obj then 1 else 0 := by
  unfold leave
  simp only
  split
  · exact ((keeps_fail s (e := .nilValue) nofun).spots x).trans (Nat.le_add_right _ _)
  · have hdead : (if forceRemove then s.deadList else s.deadList.insert obj).count x ≤
        s.deadList.count x + if x = obj then 1 else 0 := by
      split
      · exact Nat.le_add_right _ _
      · rw [List.insert]
        split
        · exact Nat.le_add_right _ _
        · rw [count_cons, TimelineArray.beq_one]
    change (if s.timeline x then 1 else 0) + (s.waves.flatMap Prod.snd).count x +
      (if forceRemove then s.deadList else s.deadList.insert obj).count x + pending (.callback :: s.todo) x ≤ _
    rw [pending_cons rfl, spots]
    omega

theorem log_leave (forceRemove : Bool) :
    .failed .addedTwice ∈ (s.leave cfg obj forceRemove).log → .failed .addedTwice ∈ s.log := by
  unfold leave
  simp only
  split
  · exact (keeps_fail s (e := .nilValue) nofun).log
  · exact id

theorem keeps_leave (s' : Timeline) (htimeline : s.timeline obj = true) (hplaces : s'.places = (s.unlist obj).places)
    (hlog : s'.log = .removed obj :: s.log) (htodo : s'.todo = s.todo) (forceRemove : Bool) :
    s.Keeps (s'.leave cfg obj forceRemove) := by
  refine ⟨fun x => (spots_leave cfg forceRemove x).trans ?_, fun hmem => ?_⟩
  · simp only [places, Prod.mk.injEq] at hplaces
    obtain ⟨ht, hw, hd⟩ := hplaces
    rw [spots, spots, ht, hw, hd, htodo]
    change (if update s.timeline obj false x then 1 else 0) + (s.waves.flatMap Prod.snd).count x +
      s.deadList.count x + pending s.todo x + _ ≤ _
    by_cases hx : x = obj
    · rw [hx, update_self, htimeline, if_pos rfl, if_pos rfl, if_neg Bool.false_ne_true]
      omega
    · rw [update_of_ne hx, if_neg hx]
      omega
  · have hmem := log_leave cfg forceRemove hmem
    rw [hlog] at hmem
    exact (mem_cons.mp hmem).resolve_left nofun

theorem Placed.timeline_of_mem (hs : s.Placed) (h : 0 < s.located obj) : s.timeline obj = true := by
  rw [hs.located obj] at h
  by_contra hfalse
  rw [if_neg hfalse] at h
  exact Nat.lt_irrefl 0 h

theorem keeps_remove (hs : s.Placed) (obj : ℕ) (forceRemove : Bool) : s.Keeps (s.remove cfg obj forceRemove) := by
  have hlisted (h : obj ∈ s.currentQueue.array ∨ obj ∈ s.waitStack.array ∨ obj ∈ s.nextQueue.array) :
      s.timeline obj = true := by
    refine hs.timeline_of_mem ?_
    unfold located
    simp only [← count_pos_iff] at h
    omega
  unfold remove
  simp only
  split
  · rename_i hfind
    have htimeline := hlisted (.inl ((hs.current obj).mp hfind))
    exact keeps_leave cfg ((s.unlist obj).takeCurrent cfg obj) htimeline rfl rfl rfl forceRemove
  · split
    · rename_i hfind
      have htimeline := hlisted (.inr (.inl ((hs.wait obj).mp hfind)))
      exact keeps_leave cfg ((s.unlist obj).takeWaiting obj) htimeline rfl rfl rfl forceRemove
    · split
      · rename_i hfind
        have htimeline := hlisted (.inr (.inr ((hs.next obj).mp hfind)))
        exact keeps_leave cfg ((s.unlist obj).takeNext cfg obj) htimeline rfl rfl rfl forceRemove
      · refine Keeps.via (s.unlist obj) ?_ (keeps_fail _ nofun)
        refine .of_spots [] rfl not_mem_nil fun x => ?_
        change (if update s.timeline obj false x then 1 else 0) + (s.waves.flatMap Prod.snd).count x +
          s.deadList.count x + pending s.todo x ≤ s.spots x
        rw [spots]
        by_cases hx : x = obj
        · rw [hx, update_self, if_neg Bool.false_ne_true]
          omega
        · rw [update_of_ne hx]

/-! ## Rounds and waves -/

theorem filterMap_addList (l : List ℕ) (wave : ℕ) :
    (l.flatMap fun obj => [.add obj wave, .resetWinner]).filterMap TimelineInstr.added = l := by
  induction l with
  | nil => rfl
  | cons obj l ih =>
    rw [flatMap_cons, filterMap_append, ih]
    rfl

theorem count_deadLeft (x : ℕ) : (s.deadLeft cfg).count x ≤ s.deadList.count x :=
  Sublist.count_le x filter_sublist

theorem keeps_enterWave : s.Keeps (s.enterWave cfg) := by
  refine .of_spots [.nextWave] rfl (by simp) fun x => ?_
  have hunset := LuaTable.count_unset s.waves s.currentWave x
  have hdead := count_deadLeft (s := s) cfg x
  have hrest : pending [.checkWinner, .waveAdded s.currentWave] x = 0 := rfl
  change (if s.timeline x then 1 else 0) + (List.flatMap Prod.snd (s.waves.unset s.currentWave)).count x +
    (s.deadLeft cfg).count x + pending ((((s.waves.get s.currentWave).getD []).flatMap
      (fun obj => [.add obj s.wave, .resetWinner]) ++ [.checkWinner, .waveAdded s.currentWave]) ++ s.todo) x ≤ s.spots x
  rw [pending_append, pending_append, pending, filterMap_addList, hrest, spots]
  omega

theorem keeps_nextRound : s.Keeps (s.nextRound cfg) := by
  exact .pushed [.callback] rfl [.beforeRound (s.nextRound cfg).currentQueue.array, .ticked .beforeRound] rfl
    (by simp) rfl rfl

theorem checkRoundLimit_error {e : TimelineError} (h : s.checkRoundLimit cfg = .error e) : e = .nilValue := by
  unfold checkRoundLimit at h
  split at h
  · cases h
  · split at h
    · split at h
      · exact (Except.error.inj h).symm
      · cases h
    · cases h

theorem getWinner_error {e : TimelineError} (h : s.getWinner cfg = .error e) : e = .nilValue := by
  unfold getWinner at h
  split at h
  · cases h
  · split at h
    · cases h
    · cases hlimit : s.checkRoundLimit cfg with
      | error e' =>
        rw [hlimit] at h
        exact (Except.error.inj h).symm.trans (checkRoundLimit_error cfg hlimit)
      | ok winner =>
        rw [hlimit] at h
        cases winner with
        | none =>
          simp only [bind, Except.bind] at h
          split at h <;> cases h
        | some winner => cases h

theorem keeps_nextWave : s.Keeps (s.nextWave cfg) := by
  unfold nextWave
  split
  · rename_i e herror
    refine keeps_fail s fun he => ?_
    split at herror
    · cases herror
    · exact TimelineError.noConfusion (he.symm.trans (checkRoundLimit_error cfg herror))
  · exact keeps_push s rfl
  · exact keeps_enterWave cfg

theorem keeps_checkWinner : s.Keeps (s.checkWinner cfg) := by
  unfold checkWinner
  split
  · rename_i e herror
    exact keeps_fail s fun he => TimelineError.noConfusion (he.symm.trans (getWinner_error cfg herror))
  · exact .refl s
  · rename_i winner _
    split
    · exact .refl s
    · refine Keeps.via ({ s with winner := some winner }) (.still rfl rfl rfl) ?_
      simp only
      split
      · split
        · exact keeps_unitFinished cfg _ rfl
        · exact keeps_push _ rfl
      · exact keeps_push _ rfl

theorem keeps_waveAdded (currentWave : ℕ) : s.Keeps (s.waveAdded currentWave) := by
  unfold waveAdded
  split
  · exact keeps_push s rfl
  · split
    · exact .noted rfl rfl nofun rfl
    · exact .still rfl rfl rfl

theorem keeps_turn (obj : ℕ) (renew ready : Bool) : s.Keeps (s.turn obj renew ready) := by
  unfold turn
  split
  · split
    · exact .pushed [.callback, .beforeActionEnd] rfl [.turn obj] rfl (by simp) rfl rfl
    · exact .refl s
  · simp only
    split
    · exact .pushed [.callback, .prepared obj ready] rfl [.turn obj, .ticked .prepareAction] rfl (by simp) rfl rfl
    · exact .pushed [.callback, .prepared obj ready] rfl [.turn obj] rfl (by simp) rfl rfl

theorem keeps_tickRest (renew ready : Bool) : s.Keeps (s.tickRest cfg renew ready) := by
  unfold tickRest
  split
  · split
    · split
      · exact keeps_unitFinished cfg _ rfl
      · exact keeps_push s rfl
    · exact keeps_push s rfl
  · split
    · exact Keeps.via ({ s with callNextRoundOnNextTick := false }) (.still rfl rfl rfl) (keeps_nextRound cfg)
    · split
      · exact (keeps_note s (e := .noObject) nofun).trans (keeps_push _ rfl)
      · exact keeps_turn _ renew ready

theorem keeps_prepared (obj : ℕ) (ready : Bool) : s.Keeps (s.prepared obj ready) := by
  unfold prepared
  split
  · simp only
    split
    · refine Keeps.via ({ s with currentRunningObjPrepared := false }.bump .readyAction) ?_ ?_
      · exact .noted rfl rfl nofun rfl
      · exact keeps_fail _ (e := .nilValue) nofun
    · split
      · exact .pushed [.finished, .tooMuchAction] rfl [.ticked .readyAction] rfl (by simp) rfl rfl
      · split
        · exact .pushed [.callback] rfl [.action obj, .ticked .readyAction] rfl (by simp) rfl rfl
        · exact .pushed [] rfl [.ticked .startAction, .ticked .readyAction] rfl (by simp) rfl rfl
  · exact .still rfl rfl rfl

theorem keeps_finishRoundEnd : s.Keeps s.finishRoundEnd := by
  unfold finishRoundEnd
  split
  · exact .noted rfl rfl nofun rfl
  · exact keeps_fail s nofun

theorem keeps_finished : s.Keeps s.finished := by
  unfold finished
  split
  · exact (keeps_bump s .finished).trans (keeps_push _ rfl)
  · exact .refl s

theorem keeps_finishRound : s.Keeps s.finishRound := by
  unfold finishRound
  split
  · exact keeps_push s rfl
  · exact .refl s

theorem keeps_finisheWave : s.Keeps (s.finisheWave cfg) := by
  unfold finisheWave
  split
  · refine .of_spots [] rfl not_mem_nil fun x => ?_
    have hdead := count_deadLeft (s := s) cfg x
    change (if s.timeline x then 1 else 0) + (s.waves.flatMap Prod.snd).count x + (s.deadLeft cfg).count x +
      pending s.todo x ≤ s.spots x
    rw [spots]
    omega
  · exact .refl s

theorem keeps_tickStart (renew ready : Bool) : s.Keeps (s.tickStart renew ready) := by
  unfold tickStart
  split
  · exact .refl s
  · split
    · exact .still rfl rfl rfl
    · split
      · exact .noted rfl rfl nofun rfl
      · split
        · exact .pushed [.nextWave, .ret] rfl [] rfl not_mem_nil rfl rfl
        · exact keeps_push s rfl

theorem keeps_deliver : s.Keeps (s.deliver cfg) := by
  unfold deliver
  split
  · exact .refl s
  · rename_i obj events _
    exact Keeps.via ({ s with events := events }) (.still rfl rfl rfl) (keeps_unitFinished cfg obj rfl)

/-! ## Runs -/

theorem keeps_exec {i : TimelineInstr} (hi : i.added = none) : s.Keeps (s.exec cfg i) := by
  cases i with
  | add obj wave => cases hi
  | callback => exact .refl s
  | ret => exact .refl s
  | resetWinner => exact .still rfl rfl rfl
  | unitFinishedEnd => exact .noted rfl rfl nofun rfl
  | tickRest renew ready => exact keeps_tickRest cfg renew ready
  | beforeActionEnd => exact keeps_bump s .beforeAction
  | prepared obj ready => exact keeps_prepared obj ready
  | checkWinner => exact keeps_checkWinner cfg
  | finishRound => exact keeps_finishRound
  | finishRoundEnd => exact keeps_finishRoundEnd
  | finisheWave => exact keeps_finisheWave cfg
  | callNextRound => exact .still rfl rfl rfl
  | callNextWave => exact .still rfl rfl rfl
  | nextWave => exact keeps_nextWave cfg
  | waveAdded currentWave => exact keeps_waveAdded currentWave
  | finished => exact keeps_finished
  | finishedEnd => exact .still rfl rfl rfl
  | tooMuchAction => exact keeps_fail s nofun

end

structure Single (s : Timeline) : Prop where
  placed : s.Placed
  spots : ∀ obj, s.spots obj ≤ 1
  log : .failed .addedTwice ∉ s.log

theorem Single.of_keeps (h : s.Single) (hplaced : s'.Placed) (hkeeps : s.Keeps s') : s'.Single :=
  ⟨hplaced, fun obj => (hkeeps.spots obj).trans (h.spots obj), fun hmem => h.log (hkeeps.log hmem)⟩

variable (cfg : TimelineConfig)

/-- `Add` is raised for an object the timeline does not have, and a summoned object leaves its wave. -/
def AddsOnce (s : Timeline) : TimelineAct → Prop
  | .call (.add obj _) => s.Unknown obj
  | .call (.assist obj) => s.Unknown obj
  | .call (.summon id pos remove visit) => remove = true ∨ s.findSummoned cfg id pos visit = none
  | _ => True

instance  (s : Timeline) (act : TimelineAct) : Decidable (s.AddsOnce cfg act) :=
  match act with
  | .call (.add obj _) => inferInstanceAs (Decidable (s.Unknown obj))
  | .call (.assist obj) => inferInstanceAs (Decidable (s.Unknown obj))
  | .call (.summon id pos remove visit) =>
    inferInstanceAs (Decidable (remove = true ∨ s.findSummoned cfg id pos visit = none))
  | .call (.remove ..) | .call (.setForceWinner _) | .call (.setSpeed ..) | .call (.setPos ..)
  | .call (.unitSpeedChange _) | .call (.unitRelive _) | .call (.unitWait _) | .call .unitFinished | .call .enterDone
  | .call (.actionDone ..) | .call (.tick ..) | .next => .isTrue trivial

theorem Single.call_add (h : s.Single) (hnew : s.Unknown obj) (hplaces : s'.places = s.places)
    (hplaced : s'.Placed) (hlog : s'.log = s.log) (wave : ℕ) (htodo : s'.todo = .add obj wave :: .ret :: s.todo) :
    s'.Single := by
  refine ⟨hplaced, fun x => ?_, hlog ▸ h.log⟩
  have hle := h.spots x
  simp only [places, Prod.mk.injEq] at hplaces
  obtain ⟨ht, hw, hd⟩ := hplaces
  have heq : s'.spots x = s.spots x + if x = obj then 1 else 0 := by
    rw [Timeline.spots, ht, hw, hd, htodo, pending_add, pending_cons rfl, Timeline.spots]
    omega
  rw [heq]
  split
  · rename_i hx
    rw [hx, spots_unknown hnew]
  · exact hle

theorem Single.of_call (h : s.Single) {c : TimelineCall} (hc : s.AddsOnce cfg (.call c)) :
    (s.call cfg c).Single := by
  have hplaced : (s.call cfg c).Placed := (refines_call cfg c h.placed).1
  cases c with
  | add obj wave => exact h.call_add hc rfl hplaced rfl (wave.getD (s.wave + 1)) rfl
  | assist obj => exact h.call_add hc rfl hplaced rfl (s.wave + 1) rfl
  | summon id pos remove visit =>
    cases hc with
    | inl hremove =>
      subst hremove
      exact h.of_keeps hplaced (keeps_summon cfg id pos visit)
    | inr hnone =>
      have hsame : s.call cfg (.summon id pos remove visit) = s := by
        unfold call summon
        simp only [hnone]
      rw [hsame]
      exact h
  | remove obj forceRemove =>
    have hpushed : (s.push [.ret]).Placed := (refines_push s _ h.placed).1
    exact h.of_keeps hplaced ((keeps_push s rfl).trans (keeps_remove cfg hpushed obj forceRemove))
  | setForceWinner winner => exact h.of_keeps hplaced (.still rfl rfl rfl)
  | setSpeed obj speed => exact h.of_keeps hplaced (.still rfl rfl rfl)
  | setPos obj pos => exact h.of_keeps hplaced (.still rfl rfl rfl)
  | unitSpeedChange obj => exact h.of_keeps hplaced (keeps_unitSpeedChange cfg obj)
  | unitRelive obj => exact h.of_keeps hplaced (keeps_unitRelive obj)
  | unitWait obj => exact h.of_keeps hplaced (keeps_unitWait cfg obj)
  | unitFinished => exact h.of_keeps hplaced (keeps_deliver cfg)
  | enterDone => exact h.of_keeps hplaced (.still rfl rfl rfl)
  | actionDone obj finished => exact h.of_keeps hplaced (.still rfl rfl rfl)
  | tick renew ready => exact h.of_keeps hplaced (keeps_tickStart renew ready)

theorem Single.exec_add (h : s.Single) {obj wave : ℕ} {is : List TimelineInstr}
    (htodo : s.todo = .add obj wave :: is) : (add cfg { s with todo := is } obj wave).Single := by
  have hspots (x : ℕ) : s.spots x = Timeline.spots { s with todo := is } x + if x = obj then 1 else 0 := by
    rw [Timeline.spots, htodo, pending_add]
    change _ = (if s.timeline x then 1 else 0) + (s.waves.flatMap Prod.snd).count x + s.deadList.count x + pending is x + _
    omega
  have hnew : s.timeline obj = false := by
    have hone := h.spots obj
    by_contra htrue
    rw [Bool.not_eq_false] at htrue
    rw [Timeline.spots, htodo, pending_add, if_pos rfl, if_pos htrue] at hone
    omega
  refine ⟨?_, fun x => ?_, fun hmem => h.log (log_add (s := { s with todo := is }) cfg hnew wave hmem)⟩
  · have hpopped : Placed { s with todo := is } := Placed.of_queues (s := s) rfl h.placed
    exact (refines_add cfg obj wave hpopped).1
  · exact (spots_add (s := { s with todo := is }) cfg hnew wave x).trans ((hspots x).ge.trans (h.spots x))

theorem Single.step (h : s.Single) {act : TimelineAct} (hact : s.AddsOnce cfg act)
    (hstep : timelineStep cfg s act = .ok s') : s'.Single := by
  have hplaced := (step_refines cfg hstep h.placed).1
  obtain rfl | ⟨c, rfl, rfl⟩ | ⟨i, is, rfl, htodo, rfl⟩ := timelineStep_cases hstep
  · exact h
  · exact h.of_call cfg hact
  · cases hi : i.added with
    | none =>
      have hpop : s.Keeps { s with todo := is } := .same rfl [] rfl not_mem_nil fun x => by
        rw [htodo, pending_cons hi]
      exact h.of_keeps hplaced (hpop.trans (keeps_exec cfg hi))
    | some obj =>
      cases i with
      | add obj wave => exact h.exec_add cfg htodo
      | _ => cases hi

/-! ## Membership -/

/-- An object whose `timeline` is set is in exactly one of the queues and once, the indexes agree with the
arrays, no object of a queue is listed in a wave, and no object has been added twice. -/
structure Membership (s : Timeline) : Prop where
  current : s.currentQueue.Agrees
  wait : s.waitStack.Agrees
  next : s.nextQueue.Agrees
  one : ∀ obj, s.timeline obj = true → s.located obj = 1
  waves : ∀ obj, 0 < s.located obj → ∀ w l, s.waves.get w = some l → obj ∉ l
  added : .failed .addedTwice ∉ s.log

theorem Single.membership (h : s.Single) : s.Membership := by
  refine ⟨h.placed.current, h.placed.wait, h.placed.next, fun obj htimeline => ?_, fun obj hpos w l hl hmem => ?_, h.log⟩
  · rw [h.placed.located obj, if_pos htimeline]
  · have hone := h.spots obj
    have hwaves := LuaTable.count_unset s.waves w obj
    have hl' : 0 < l.count obj := count_pos_iff.mpr hmem
    rw [hl, Option.getD_some] at hwaves
    rw [Timeline.spots, if_pos (h.placed.timeline_of_mem hpos)] at hone
    omega

end

theorem single_new (speed : ℕ → ℤ) (pos : ℕ → ℕ) : (timelineNew speed pos).Single :=
  ⟨placed_new speed pos, fun _ => Nat.zero_le 1, not_mem_nil⟩

theorem membership_kept (cfg : TimelineConfig) (speed : ℕ → ℤ) (pos : ℕ → ℕ) (acts : List TimelineAct)
    (h : Along (timelineStep cfg) (AddsOnce cfg) (timelineNew speed pos) acts) :
    Throughout (timelineStep cfg) Membership (timelineNew speed pos) acts :=
  run_throughout (fun _ hs => hs.membership) (fun _ _ _ hs hact hstep => hs.step cfg hact hstep) acts _
    (single_new speed pos) h

/-! ## A battle -/

def duelConfig : TimelineConfig where
  unit obj := ⟨obj, if obj = 1 then 1 else 2, 0, false⟩
  workAsDefender := false
  failedRoundLimit := some 20
  winRoundLimit := none
  tableSort := .insertion

/-- `Tick` and all that it leads to while the scripts in its callbacks do nothing. -/
def tickAct : List TimelineAct := .call (.tick true true) :: List.replicate 12 .next

def duelStart : List TimelineAct :=
  [.call (.add 1 (some 1)), .next, .next, .call (.add 2 (some 1)), .next, .next, .call (.add 3 (some 2)), .next, .next] ++
    tickAct ++ tickAct

theorem membership_kept_summoned :
    Throughout (timelineStep duelConfig) Membership (timelineNew (fun _ => 0) id)
      (duelStart ++ [.call (.summon 3 3 true []), .next, .next, .call (.remove 1 false), .next, .next,
        .call (.unitRelive 1), .next, .next] ++ tickAct ++ tickAct) := by
  refine membership_kept _ _ _ _ ?_
  decide +kernel

/-- Object 3 is summoned but stays in its wave: the next wave adds it a second time. -/
theorem summoned_twice :
    ¬ Throughout (timelineStep duelConfig) Membership (timelineNew (fun _ => 0) id)
      (duelStart ++ [.call (.summon 3 3 false []), .next, .next, .call (.remove 1 false), .next, .next] ++
        tickAct ++ tickAct) := by
  refine not_throughout (fun s => decide (.failed .addedTwice ∈ s.log)) ?_ fun s hs h => h.added (of_decide_eq_true hs)
  decide +kernel

end Timeline
end CServer.Fight
