import CServer.World.Timer

/-! # Runs of the timer wheel

Every interleaving of `timer_add`, `timer_remove` of pending timers and `module_timer_update`, with additions and removals
from callbacks. A timer that a callback adds for the second being processed comes to the emptied slot, where the wheel comes
by one turn later; and removing the timer the local list points to leaves that pointer to a freed node.
-/
namespace CServer.World
open CServer.Lib Function

/-- Only pending timers are removed, and none that a running `module_timer_update` takes next. -/
def Wheel.RemoveOk (w : Wheel) : TimerAct → Prop
  | .remove timer => w.pending timer ∧ w.pc.list ≠ some timer
  | _ => True

/-- No callback adds a timer for the second being processed. -/
def Wheel.AddOk (w : Wheel) : TimerAct → Prop
  | .add due _ => w.pc.inSecond = true → due ≠ w.next
  | _ => True

variable {w : Wheel} {rows : ℕ → List ℕ} {cur : List ℕ}

theorem moduleTimerUpdate_detach {now : ℕ} (hpc : w.pc = .seconds now) (hle : w.next ≤ now) :
    moduleTimerUpdate w = .ok { w with
      timerList := update w.timerList (w.next % maxTimer) none
      pc := .second now (w.timerList (w.next % maxTimer)) } := by
  simp only [moduleTimerUpdate, hpc, hle, if_true]

theorem moduleTimerUpdate_leave {now : ℕ} (hpc : w.pc = .seconds now) (hle : ¬ w.next ≤ now) :
    moduleTimerUpdate w = .ok { w with pc := .outside } := by
  simp only [moduleTimerUpdate, hpc, hle, if_false]

theorem moduleTimerUpdate_take {now timer : ℕ} {heap : DHeap} {list : Option ℕ} (hpc : w.pc = .second now (some timer))
    (hrem : dlistRemove w.heap (some timer) timer = .ok (heap, list)) :
    moduleTimerUpdate w = .ok { w with
      heap := heap
      pc := .callback now list timer
      fired := w.fired ++ [(timer, w.next)] } := by
  simp only [moduleTimerUpdate, hpc, hrem, ok_bind]

theorem moduleTimerUpdate_finish {now timer : ℕ} {list : Option ℕ} (hpc : w.pc = .callback now list timer)
    (hacc : w.heap.access timer = .ok ()) :
    moduleTimerUpdate w = .ok { w with heap := w.heap.free timer, pc := .second now list } := by
  simp only [moduleTimerUpdate, hpc, hacc, ok_bind]

theorem Wheel.Ok.advance (h : w.Ok rows cur) :
    ∃ w' rows' cur', moduleTimerUpdate w = .ok w' ∧ w'.Ok rows' cur' := by
  cases hpc : w.pc with
  | outside => exact ⟨w, rows, cur, by rw [moduleTimerUpdate, hpc], h⟩
  | seconds now =>
    by_cases hle : w.next ≤ now
    · exact ⟨_, _, _, moduleTimerUpdate_detach hpc hle, h.detach hpc⟩
    · exact ⟨_, rows, cur, moduleTimerUpdate_leave hpc hle, h.leave hpc⟩
  | second now list =>
    cases list with
    | none => exact ⟨_, rows, cur, by simp only [moduleTimerUpdate, hpc], h.tick hpc⟩
    | some timer =>
      obtain ⟨heap, cs, -, hrem, h'⟩ := h.take hpc
      exact ⟨_, rows, cs, moduleTimerUpdate_take hpc hrem, h'⟩
  | callback now list timer =>
    obtain ⟨hacc, h'⟩ := h.finish hpc
    exact ⟨_, rows, cur, moduleTimerUpdate_finish hpc hacc, h'⟩

theorem Wheel.Ok.step (h : w.Ok rows cur) {act : TimerAct} (hok : w.RemoveOk act) :
    ∃ w' rows' cur', w.step act = .ok w' ∧ w'.Ok rows' cur' := by
  cases act with
  | add due ok =>
    by_cases hy : w.pc.yields = true
    · by_cases hwin : due < w.next ∨ w.next + maxTimer ≤ due
      · exact ⟨w, rows, cur, by simp only [Wheel.step, hy, if_true, timerAdd, hwin, ok_bind], h⟩
      · cases ok with
        | false => exact ⟨w, rows, cur, by simp only [Wheel.step, hy, if_true, timerAdd, hwin, if_false, ok_bind], h⟩
        | true =>
          obtain ⟨w', rows', hadd, h'⟩ := @Wheel.Ok.add w rows cur h due (by omega) (by omega)
          exact ⟨w', rows', cur, by simp only [Wheel.step, hy, if_true, hadd, ok_bind], h'⟩
    · exact ⟨w, rows, cur, by simp only [Wheel.step, hy, if_false, Bool.false_eq_true], h⟩
  | remove timer =>
    by_cases hy : w.pc.yields = true
    · obtain ⟨w', rows', cur', hrem, h', -⟩ := h.remove hok.1 hok.2
      exact ⟨w', rows', cur', by simp only [Wheel.step, hy, if_true, hrem], h'⟩
    · exact ⟨w, rows, cur, by simp only [Wheel.step, hy, if_false, Bool.false_eq_true], h⟩
  | update now =>
    cases hpc : w.pc with
    | outside => exact ⟨_, rows, cur, by simp only [Wheel.step, hpc], h.enter hpc now⟩
    | seconds n => exact ⟨w, rows, cur, by simp only [Wheel.step, hpc], h⟩
    | second n list => exact ⟨w, rows, cur, by simp only [Wheel.step, hpc], h⟩
    | callback n list t => exact ⟨w, rows, cur, by simp only [Wheel.step, hpc], h⟩
  | step => exact h.advance

theorem wheel_run {start : ℕ} {acts : List TimerAct}
    (hok : Along Wheel.step Wheel.RemoveOk (moduleTimerLoad start) acts) :
    ∃ w rows cur, run Wheel.step (moduleTimerLoad start) acts = .ok w ∧ w.Ok rows cur := by
  have hstep : ∀ w act, (∃ rows cur, Wheel.Ok w rows cur) → w.RemoveOk act →
      ∃ w', w.step act = .ok w' ∧ ∃ rows cur, Wheel.Ok w' rows cur := by
    rintro w act ⟨rows, cur, h⟩ hact
    obtain ⟨w', rows', cur', hs, h'⟩ := h.step hact
    exact ⟨w', hs, rows', cur', h'⟩
  obtain ⟨w, hrun, rows, cur, h⟩ := run_ok hstep acts _ ⟨_, _, moduleTimerLoad_ok start⟩ hok
  exact ⟨w, rows, cur, hrun, h⟩

/-! ## An update comes to its end -/

theorem run_replicate_cons {n : ℕ} {w w₁ : Wheel} (h : moduleTimerUpdate w = .ok w₁) :
    run Wheel.step w (List.replicate (n + 1) .step) = run Wheel.step w₁ (List.replicate n .step) := by
  rw [List.replicate_succ, run, Wheel.step, h]

theorem Wheel.Ok.second_ends {now : ℕ} (cur : List ℕ) : ∀ {w : Wheel} {rows : ℕ → List ℕ}, w.Ok rows cur →
    w.pc = .second now cur.head? →
    ∃ n w' rows', run Wheel.step w (List.replicate n .step) = .ok w' ∧ w'.Ok rows' [] ∧ w'.pc = .seconds now ∧
      w'.next = w.next + 1 := by
  induction cur with
  | nil =>
    intro w rows h hpc
    refine ⟨1, _, rows, ?_, h.tick hpc, rfl, rfl⟩
    rw [run_replicate_cons (by rw [moduleTimerUpdate, hpc]; rfl)]
    rfl
  | cons c cs ih =>
    intro w rows h hpc
    obtain ⟨heap, cs', hcs, hrem, h₁⟩ := h.take hpc
    obtain rfl : cs = cs' := (List.cons.inj hcs).2
    obtain ⟨hacc, h₂⟩ := h₁.finish rfl
    obtain ⟨n, w', rows', hrun, h', hpc', hnext⟩ := ih h₂ rfl
    refine ⟨n + 1 + 1, w', rows', ?_, h', hpc', hnext⟩
    rw [run_replicate_cons (moduleTimerUpdate_take hpc hrem), run_replicate_cons (moduleTimerUpdate_finish rfl hacc)]
    exact hrun

theorem Wheel.Ok.seconds_end {now : ℕ} (k : ℕ) : ∀ {w : Wheel} {rows : ℕ → List ℕ}, w.Ok rows [] →
    w.pc = .seconds now → now < w.next + k →
    ∃ n w', run Wheel.step w (List.replicate n .step) = .ok w' ∧ w'.pc = .outside ∧ now < w'.next := by
  induction k with
  | zero =>
    intro w rows h hpc hlt
    have hle : ¬ w.next ≤ now := by omega
    refine ⟨1, { w with pc := .outside }, ?_, rfl, by show now < w.next; omega⟩
    rw [run_replicate_cons (moduleTimerUpdate_leave hpc hle)]
    rfl
  | succ k ih =>
    intro w rows h hpc hlt
    by_cases hle : w.next ≤ now
    · have h₁ := h.detach hpc
      have hpos : w.next % maxTimer < maxTimer := Nat.mod_lt _ (by norm_num [maxTimer])
      obtain ⟨n₁, w₂, rows₂, hrun₁, h₂, hpc₂, hnext₂⟩ := Wheel.Ok.second_ends _ h₁ (by
        show TimerPc.second now (w.timerList (w.next % maxTimer)) = _
        rw [(h.slot _ hpos).2])
      obtain ⟨n₂, w', hrun₂, hpc', hnext'⟩ := ih h₂ hpc₂ (by rw [hnext₂]; show now < w.next + 1 + k; omega)
      refine ⟨n₁ + n₂ + 1, w', ?_, hpc', hnext'⟩
      rw [run_replicate_cons (moduleTimerUpdate_detach hpc hle), List.replicate_add,
        run_append _ _ hrun₁]
      exact hrun₂
    · refine ⟨1, { w with pc := .outside }, ?_, rfl, by show now < w.next; omega⟩
      rw [run_replicate_cons (moduleTimerUpdate_leave hpc hle)]
      rfl

/-- Called from outside, `module_timer_update(now)` returns when its callbacks do, with every second up
to `now` behind it. -/
theorem Wheel.Ok.update_ends (h : w.Ok rows cur) (hpc : w.pc = .outside) (now : ℕ) :
    ∃ n w', run Wheel.step w (.update now :: List.replicate n .step) = .ok w' ∧ w'.pc = .outside ∧ now < w'.next := by
  have hnil : cur = [] := h.cur_nil (by rw [hpc]; rfl)
  subst hnil
  have hfuel : now < w.next + (now + 1) := by omega
  obtain ⟨n, w', hrun, hpc', hnext⟩ := (h.enter hpc now).seconds_end (now + 1) rfl hfuel
  refine ⟨n, w', ?_, hpc', hnext⟩
  rw [run, Wheel.step, hpc]
  exact hrun

/-! ## Timers fire in their second -/

def Wheel.OnTime (w : Wheel) : Prop := ∀ a < w.fresh, w.fires a = w.due a

theorem moduleTimerUpdate_fields {w' : Wheel} (h : moduleTimerUpdate w = .ok w') :
    w'.fresh = w.fresh ∧ w'.due = w.due ∧ w'.fires = w.fires := by
  rw [moduleTimerUpdate] at h
  split at h
  · obtain rfl := Except.ok.inj h
    exact ⟨rfl, rfl, rfl⟩
  · split at h
    · obtain rfl := Except.ok.inj h
      exact ⟨rfl, rfl, rfl⟩
    · obtain rfl := Except.ok.inj h
      exact ⟨rfl, rfl, rfl⟩
  · obtain rfl := Except.ok.inj h
    exact ⟨rfl, rfl, rfl⟩
  · obtain ⟨⟨heap, list⟩, -, he⟩ := bind_ok_iff.mp h
    obtain rfl := Except.ok.inj he
    exact ⟨rfl, rfl, rfl⟩
  · obtain ⟨-, -, he⟩ := bind_ok_iff.mp h
    obtain rfl := Except.ok.inj he
    exact ⟨rfl, rfl, rfl⟩

theorem timerRemove_fields {w' : Wheel} {t : ℕ} (h : timerRemove w t = .ok w') :
    w'.fresh = w.fresh ∧ w'.due = w.due ∧ w'.fires = w.fires := by
  obtain ⟨-, -, h⟩ := bind_ok_iff.mp h
  obtain ⟨-, -, h⟩ := bind_ok_iff.mp h
  obtain ⟨⟨heap, list⟩, -, h⟩ := bind_ok_iff.mp h
  obtain rfl := Except.ok.inj h
  exact ⟨rfl, rfl, rfl⟩

theorem Wheel.OnTime.add {w' : Wheel} (h : w.OnTime) {due : ℕ} {ok : Bool} {r : Option ℕ}
    (hok : w.pc.inSecond = true → due ≠ w.next) (hadd : timerAdd w due ok = .ok (w', r)) : w'.OnTime := by
  rw [timerAdd] at hadd
  split at hadd
  · obtain ⟨rfl, -⟩ := ok_pair_inj hadd
    exact h
  · split at hadd
    · obtain ⟨rfl, -⟩ := ok_pair_inj hadd
      exact h
    · obtain ⟨⟨heap, list⟩, -, he⟩ := bind_ok_iff.mp hadd
      obtain ⟨rfl, -⟩ := ok_pair_inj he
      have hnot : ¬ (w.pc.inSecond = true ∧ due = w.next) := fun hc => hok hc.1 hc.2
      intro a ha
      simp only [hnot, if_false] at ha ⊢
      by_cases haf : a = w.fresh
      · subst haf
        simp only [update_self]
      · simp only [update_of_ne haf]
        exact h a (by omega)

theorem Wheel.OnTime.congr {w' : Wheel} (h : w.OnTime)
    (hw : w'.fresh = w.fresh ∧ w'.due = w.due ∧ w'.fires = w.fires) : w'.OnTime := by
  intro a ha
  rw [hw.2.1, hw.2.2]
  exact h a (hw.1 ▸ ha)

theorem Wheel.OnTime.step {w' : Wheel} (h : w.OnTime) {act : TimerAct} (hok : w.AddOk act)
    (hstep : w.step act = .ok w') : w'.OnTime := by
  cases act with
  | add due ok =>
    rw [Wheel.step] at hstep
    split at hstep
    · obtain ⟨⟨w₁, r⟩, hadd, he⟩ := bind_ok_iff.mp hstep
      obtain rfl := Except.ok.inj he
      exact h.add hok hadd
    · exact Except.ok.inj hstep ▸ h
  | remove timer =>
    rw [Wheel.step] at hstep
    split at hstep
    · exact h.congr (timerRemove_fields hstep)
    · exact Except.ok.inj hstep ▸ h
  | update now =>
    rw [Wheel.step] at hstep
    split at hstep
    · obtain rfl := Except.ok.inj hstep
      exact h
    · exact Except.ok.inj hstep ▸ h
  | step => exact h.congr (moduleTimerUpdate_fields hstep)

theorem Wheel.Ok.reached (h : w.Ok rows cur) {a : ℕ} (ha : a < w.fresh) (hrem : a ∉ w.removed)
    (hlt : w.fires a < w.next) : a ∈ w.fired.map Prod.fst := by
  by_contra hf
  rcases (h.pending a).mp ⟨ha, hf, hrem⟩ with hc | ⟨p, hp, hmem⟩
  · have := h.now a hc
    omega
  · have hwin := (h.place p hp a hmem).2
    rw [Wheel.window] at hwin
    split at hwin
    · omega
    · omega

/-- In every run in which no callback adds a timer for the second being processed (and removals keep to timers that are pending
and not next to fire): each timer added and not removed fires once, in its second, and has fired when the wheel is past it;
the timers of one second fire in the order they were added in; and an update from outside comes to its end. -/
theorem timers_fire_in_their_second {start : ℕ} {acts : List TimerAct}
    (hok : Along Wheel.step (fun w act => w.RemoveOk act ∧ w.AddOk act) (moduleTimerLoad start) acts) :
    ∃ w, run Wheel.step (moduleTimerLoad start) acts = .ok w ∧
      (w.fired.map Prod.fst).Nodup ∧ (∀ x ∈ w.fired, x.2 = w.due x.1) ∧
      (∀ a < w.fresh, a ∉ w.removed → w.due a < w.next → a ∈ w.fired.map Prod.fst) ∧
      w.fired.Pairwise (fun x y => x.2 = y.2 → x.1 < y.1) ∧
      (w.pc = .outside → ∀ now, ∃ n w', run Wheel.step w (.update now :: List.replicate n .step) = .ok w' ∧
        w'.pc = .outside ∧ now < w'.next) := by
  have hstep : ∀ w act, ((∃ rows cur, Wheel.Ok w rows cur) ∧ w.OnTime) → (w.RemoveOk act ∧ w.AddOk act) →
      ∃ w', w.step act = .ok w' ∧ (∃ rows cur, Wheel.Ok w' rows cur) ∧ w'.OnTime := by
    rintro w act ⟨⟨rows, cur, h⟩, ht⟩ ⟨hrem, hadd⟩
    obtain ⟨w', rows', cur', hs, h'⟩ := h.step hrem
    exact ⟨w', hs, ⟨rows', cur', h'⟩, ht.step hadd hs⟩
  obtain ⟨w, hrun, ⟨rows, cur, h⟩, ht⟩ := run_ok hstep acts _
    ⟨⟨_, _, moduleTimerLoad_ok start⟩, fun a ha => absurd ha (by simp [moduleTimerLoad])⟩ hok
  refine ⟨w, hrun, h.once, fun x hx => ?_, fun a ha hrem hlt => ?_, h.order.1, h.update_ends⟩
  · obtain ⟨h1, h2, -⟩ := h.past x hx
    rw [h2, ht x.1 h1]
  · rw [← ht a ha] at hlt
    exact h.reached ha hrem hlt

theorem timers_fire_in_their_second_two :
    ∃ w, run Wheel.step (moduleTimerLoad 100) [.add 100 true, .add 100 true, .update 100, .step, .step, .add 101 true,
      .step, .step, .step, .step] = .ok w ∧ w.fired = [(0, 100), (1, 100)] ∧ ∀ x ∈ w.fired, x.2 = w.due x.1 := by
  have hok : Along Wheel.step (fun w act => w.RemoveOk act ∧ w.AddOk act) (moduleTimerLoad 100)
      [.add 100 true, .add 100 true, .update 100, .step, .step, .add 101 true, .step, .step, .step, .step] :=
    .cons ⟨trivial, fun h => by cases h⟩ rfl (.cons ⟨trivial, fun h => by cases h⟩ rfl
      (.cons ⟨trivial, trivial⟩ rfl (.cons ⟨trivial, trivial⟩ rfl (.cons ⟨trivial, trivial⟩ rfl
      (.cons ⟨trivial, fun _ => by decide⟩ rfl (.cons ⟨trivial, trivial⟩ rfl (.cons ⟨trivial, trivial⟩ rfl
      (.cons ⟨trivial, trivial⟩ rfl (.cons ⟨trivial, trivial⟩ rfl trivial)))))))))
  obtain ⟨w, hrun, -, hdue, -⟩ := timers_fire_in_their_second hok
  refine ⟨w, hrun, ?_, hdue⟩
  obtain rfl := Except.ok.inj hrun
  rfl

/-- The callback of the only timer of second 100 adds another one for second 100: it is accepted, and
when the wheel is past that second it has not fired. -/
theorem timer_added_for_its_own_second_waits : ¬ ∀ start acts w,
    run Wheel.step (moduleTimerLoad start) acts = .ok w →
      ∀ a < w.fresh, a ∉ w.removed → w.due a < w.next → a ∈ w.fired.map Prod.fst := by
  intro hall
  have h := hall 100 [.add 100 true, .update 100, .step, .step, .add 100 true, .step, .step, .step] _ rfl 1
    (by decide) (by decide) (by decide)
  revert h
  decide

/-- In every run in which timers are removed only while they are pending and not next to fire: nothing freed is touched, a
removed timer never fires, and every other one fires once, in the second in which the wheel reaches it: its own, or the one a
turn later if a callback of that very second added it. -/
theorem timers_removed_safely {start : ℕ} {acts : List TimerAct}
    (hok : Along Wheel.step Wheel.RemoveOk (moduleTimerLoad start) acts) :
    ∃ w, run Wheel.step (moduleTimerLoad start) acts = .ok w ∧
      (∀ t ∈ w.removed, w.heap.alive t = false ∧ t ∉ w.fired.map Prod.fst) ∧
      (w.fired.map Prod.fst).Nodup ∧ (∀ x ∈ w.fired, x.2 = w.fires x.1) ∧
      (∀ a < w.fresh, w.fires a = w.due a ∨ w.fires a = w.due a + maxTimer) ∧
      (∀ a < w.fresh, a ∉ w.removed → w.fires a < w.next → a ∈ w.fired.map Prod.fst) ∧
      (w.pc = .outside → ∀ now, ∃ n w', run Wheel.step w (.update now :: List.replicate n .step) = .ok w' ∧
        w'.pc = .outside ∧ now < w'.next) := by
  obtain ⟨w, rows, cur, hrun, h⟩ := wheel_run hok
  refine ⟨w, hrun, fun t ht => ?_, h.once, fun x hx => (h.past x hx).2.1, h.due,
    fun a ha hrem hlt => h.reached ha hrem hlt, h.update_ends⟩
  obtain ⟨-, h2, h3⟩ := h.gone t ht
  exact ⟨h3, h2⟩

theorem timers_removed_safely_last :
    ∃ w, run Wheel.step (moduleTimerLoad 100) [.add 100 true, .add 100 true, .add 100 true, .update 100, .step, .step,
      .remove 2, .step, .step, .step] = .ok w ∧ 2 ∈ w.removed ∧ 2 ∉ w.fired.map Prod.fst := by
  have hok : Along Wheel.step Wheel.RemoveOk (moduleTimerLoad 100) [.add 100 true, .add 100 true, .add 100 true,
      .update 100, .step, .step, .remove 2, .step, .step, .step] :=
    .cons trivial rfl (.cons trivial rfl (.cons trivial rfl (.cons trivial rfl (.cons trivial rfl (.cons trivial rfl
      (.cons ⟨⟨by decide, by decide, by decide⟩, by decide⟩ rfl
      (.cons trivial rfl (.cons trivial rfl (.cons trivial rfl trivial)))))))))
  obtain ⟨w, hrun, hrem, -⟩ := timers_removed_safely hok
  have hmem : 2 ∈ w.removed := by
    obtain rfl := Except.ok.inj hrun
    decide
  exact ⟨w, hrun, hmem, (hrem 2 hmem).2⟩

/-- Two timers of one second; the callback of the first removes the second one, which is pending. The
local list still points to it, and the next turn of the loop reads the freed node. -/
theorem timer_removed_next_to_fire_is_touched : ¬ ∀ start acts,
    Along Wheel.step (fun w act => ∀ t, act = .remove t → w.pending t) (moduleTimerLoad start) acts →
      ∃ w, run Wheel.step (moduleTimerLoad start) acts = .ok w := by
  intro hall
  obtain ⟨w, hrun⟩ := hall 100 [.add 100 true, .add 100 true, .update 100, .step, .step, .remove 1, .step, .step]
    (.cons (fun t he => by cases he) rfl (.cons (fun t he => by cases he) rfl (.cons (fun t he => by cases he) rfl
      (.cons (fun t he => by cases he) rfl (.cons (fun t he => by cases he) rfl
      (.cons (fun t he => by cases he; exact ⟨by decide, by decide, by decide⟩) rfl
      (.cons (fun t he => by cases he) rfl ⟨fun t he => (by cases he), fun s' hs' => (by cases hs')⟩)))))))
  have hfault : run Wheel.step (moduleTimerLoad 100)
      [.add 100 true, .add 100 true, .update 100, .step, .step, .remove 1, .step, .step] = .error .outOfBounds := rfl
  rw [hfault] at hrun
  cases hrun

end CServer.World
